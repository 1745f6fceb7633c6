import Timebase.Proofs.Operations
import Timebase.Proofs.Program

/-!
# Histories and calls

The wake-ups in the history of a program are the calls that its devices get: a program whose
devices note each call before they do anything else comes out as before, with these notes.
-/

namespace Timebase

/-- A wake-up as its device gets it. -/
structure Call where
  device : DeviceId
  time : Instant
  tag : Tag
  deriving DecidableEq, Repr

variable {σ α β : Type}

def Event.calls : Event → List Call
  | .woken p time => [⟨p.device, time, p.tag⟩]
  | _ => []

/-- The wake-ups of a history, in order. -/
def calls (ms : List (Moment σ)) : List Call := gather Event.calls ms

/-- The states of the devices without the notes. -/
def statesPart : Part (σ × List Call) σ := ⟨Prod.fst, fun devices d => (devices, d.2)⟩

namespace World

/-- A world whose devices have noted some calls. -/
def record (noted : List Call) (w : World σ) : World (σ × List Call) :=
  { scheduler := w.scheduler, lifetimes := w.lifetimes, skipped := w.skipped,
    devices := (w.devices, noted) }

def unrecorded (w : World (σ × List Call)) : World σ :=
  { scheduler := w.scheduler, lifetimes := w.lifetimes, skipped := w.skipped,
    devices := w.devices.1 }

end World

namespace Program

/-- The same program on devices that note each call they get. -/
def recorded {α : Type} : Program σ α → Program (σ × List Call) α
  | .done a => .done a
  | .halt cause => .halt cause
  | .andThen p next => .andThen p.recorded fun a => (next a).recorded
  | .attempt p => .attempt p.recorded
  | .look f => .look fun w => f w.unrecorded
  | .work act => .work (Run.on statesPart act)
  | .ask device demand act => .ask device demand (Run.on statesPart act)
  | .enroll ownsSyncPoints => .enroll ownsSyncPoints
  | .drop device => .drop device
  | .visit device p => .visit device p.recorded
  | .register time device tag => .register time device tag
  | .cancel device tag => .cancel device tag
  | .cancelAll device => .cancelAll device
  | .setCurrentTime thread time => .setCurrentTime thread time
  | .schedule wake steps thread limit =>
    .schedule
      (fun device time tag =>
        .andThen (.work (modify fun d => (d.1, d.2 ++ [⟨device, time, tag⟩])))
          fun _ => (wake device time tag).recorded)
      steps thread limit

end Program

/-- An outcome on plain worlds as one on worlds with notes. -/
def recordResult (noted : List Call) :
    EStateM.Result Halt (World σ) α → EStateM.Result Halt (World (σ × List Call)) α
  | .ok a v => .ok a (v.record noted)
  | .error halt v => .error halt (v.record noted)

theorem recordResult_of_silent {noted added : List Call}
    {result : EStateM.Result Halt (World σ) α}
    {result' : EStateM.Result Halt (World (σ × List Call)) α}
    (h : result' = recordResult noted result) (hadded : added = []) :
    result' = recordResult (noted ++ added) result := by
  rw [hadded, List.append_nil]
  exact h

/-- A run on worlds with notes does what one on plain worlds does, and adds calls to the notes. -/
def Follows (act' : Run (World (σ × List Call)) α) (act : Run (World σ) α)
    (added : World σ → List Call) : Prop :=
  ∀ w noted, act' (w.record noted) = recordResult (noted ++ added w) (act w)

private theorem bury_record (device : DeviceId) (noted : List Call) (w : World σ)
    (lifetimes : List Lifetime) :
    ({ w.record noted with lifetimes } : World (σ × List Call)).bury device =
      (({ w with lifetimes } : World σ).bury device).record noted := by
  rw [World.bury, World.bury]
  cases lifetimes[device]? with
  | none => rfl
  | some l => cases h : (!l.isAlive && l.ownsSyncPoints) <;> simp only [h] <;> rfl

theorem onScheduler_record (act : Run Scheduler α) (w : World σ) (noted : List Call) :
    World.onScheduler act (w.record noted) = recordResult noted (World.onScheduler act w) := by
  cases hact : act w.scheduler with
  | ok a s =>
    have hr : act (w.record noted).scheduler = .ok a s := hact
    rw [World.onScheduler_of_ok hact, World.onScheduler_of_ok hr]
    rfl
  | error halt s =>
    have hr : act (w.record noted).scheduler = .error halt s := hact
    rw [World.onScheduler_of_error hact, World.onScheduler_of_error hr]
    rfl

theorem onDevices_record (act : Run σ α) (w : World σ) (noted : List Call) :
    World.onDevices (Run.on statesPart act) (w.record noted) =
      recordResult noted (World.onDevices act w) := by
  cases hact : act w.devices with
  | ok a devices =>
    have hd : Run.on statesPart act (w.record noted).devices = .ok a (devices, noted) :=
      Run.on_of_ok hact
    rw [World.onDevices_of_ok hact, World.onDevices_of_ok hd]
    rfl
  | error halt devices =>
    have hd : Run.on statesPart act (w.record noted).devices = .error halt (devices, noted) :=
      Run.on_of_error hact
    rw [World.onDevices_of_error hact, World.onDevices_of_error hd]
    rfl

theorem drop_record (device : DeviceId) (w : World σ) (noted : List Call) :
    World.drop device (w.record noted) = recordResult noted (World.drop device w) := by
  cases ho : w.isOwned device with
  | true =>
    have ho' : (w.record noted).isOwned device = true := ho
    rw [World.drop_of_owned ho, World.drop_of_owned ho']
    exact congrArg _ (bury_record device noted w _)
  | false =>
    have ho' : (w.record noted).isOwned device = false := ho
    rw [World.drop_of_not_owned ho, World.drop_of_not_owned ho']
    rfl

namespace Follows

variable {act' : Run (World (σ × List Call)) α} {act : Run (World σ) α}
  {added total : World σ → List Call}

theorem of_silent (h : ∀ w noted, act' (w.record noted) = recordResult noted (act w))
    (hadded : ∀ w, added w = []) : Follows act' act added := by
  intro w noted
  exact recordResult_of_silent (h w noted) (hadded w)

theorem bind {next' : α → Run (World (σ × List Call)) β} {next : α → Run (World σ) β}
    {more : α → World σ → List Call} (h : Follows act' act added)
    (hnext : ∀ a, Follows (next' a) (next a) (more a))
    (hok : ∀ {w a v}, act w = .ok a v → total w = added w ++ more a v)
    (herror : ∀ {w halt v}, act w = .error halt v → total w = added w) :
    Follows (act' >>= next') (act >>= next) total := by
  intro w noted
  have hw := h w noted
  cases hact : act w with
  | ok a u =>
    rw [hact] at hw
    rw [Run.bind_of_ok hw, Run.bind_of_ok hact, hnext a u, hok hact, List.append_assoc]
  | error halt u =>
    rw [hact] at hw
    rw [Run.bind_of_error hw, Run.bind_of_error hact, herror hact]
    rfl

theorem attempt (h : Follows act' act added) :
    Follows (Run.attempt act') (Run.attempt act) added := by
  intro w noted
  have hw := h w noted
  rw [Run.attempt, Run.attempt, hw]
  rcases act w with ⟨a, u⟩ | ⟨_ | _, u⟩ <;> rfl

theorem during (device : DeviceId) (h : Follows act' act added) :
    Follows (World.during device act') (World.during device act)
      fun w => added (w.retain device) := by
  intro w noted
  have hw : act' ((w.record noted).retain device) = _ := h (w.retain device) noted
  cases hact : act (w.retain device) with
  | ok a u =>
    rw [hact] at hw
    rw [World.during_of_ok hact, World.during_of_ok hw, World.release, World.release]
    exact congrArg _ (bury_record device _ u _)
  | error halt u =>
    rw [hact] at hw
    rw [World.during_of_error hact, World.during_of_error hw, World.release, World.release]
    exact congrArg _ (bury_record device _ u _)

end Follows

theorem calls_append (ms ns : List (Moment σ)) : calls (ms ++ ns) = calls ms ++ calls ns :=
  List.flatMap_append

namespace World

variable {wake' : Wake (σ × List Call)} {wake : Wake σ}
  {history : DeviceId → Instant → Tag → World σ → List (Moment σ)}

theorem calls_visitHistory (device : DeviceId) (act : Run (World σ) α)
    (inner : World σ → List (Moment σ)) (w : World σ) :
    calls (w.visitHistory device act inner) = calls (inner (w.retain device)) := by
  rw [visitHistory]
  show calls (_ ++ _) = _
  rw [calls_append]
  exact List.append_nil _

/-- Wake-ups that note the call they get and then go on as before. -/
def Notes (wake' : Wake (σ × List Call)) (wake : Wake σ)
    (history : DeviceId → Instant → Tag → World σ → List (Moment σ)) : Prop :=
  ∀ device time tag, Follows (wake' device time tag) (wake device time tag)
    fun w => ⟨device, time, tag⟩ :: calls (history device time tag w)

private theorem deliver_follows (h : Notes wake' wake history) (p : SyncPoint) (time : Instant) :
    Follows (deliver wake' p time) (deliver wake p time)
      fun w => calls (deliverHistory wake history p time w) := by
  intro w noted
  show _ = recordResult (noted ++ calls (deliverHistory wake history p time w)) _
  cases ha : w.isAlive p.device with
  | true =>
    have ha' : (w.record noted).isAlive p.device = true := ha
    have hc : calls (deliverHistory wake history p time w) =
        ⟨p.device, time, p.tag⟩ :: calls (history p.device time p.tag (w.retain p.device)) := by
      rw [deliverHistory, if_pos ha, ← calls_visitHistory p.device (wake p.device time p.tag)]
      rfl
    rw [deliver_of_alive ha, deliver_of_alive ha', hc]
    exact (h p.device time p.tag).during p.device w noted
  | false =>
    have ha' : (w.record noted).isAlive p.device = false := ha
    have hc : calls (deliverHistory wake history p time w) = [] := by
      rw [deliverHistory, if_neg (by simp [ha])]
      rfl
    rw [deliver_of_gone ha, deliver_of_gone ha']
    exact recordResult_of_silent rfl hc

private theorem dispatch_follows (h : Notes wake' wake history) (limit : Instant) (steps : Nat) :
    Follows (dispatch wake' limit steps) (dispatch wake limit steps)
      fun w => calls (dispatchHistory wake history limit steps w) := by
  induction steps with
  | zero =>
    intro w noted
    exact recordResult_of_silent rfl rfl
  | succ steps ih =>
    intro w noted
    show _ = recordResult (noted ++ calls (dispatchHistory wake history limit (steps + 1) w)) _
    rcases dispatch_succ wake limit steps w with
      ⟨hn, he⟩ | ⟨p, time, scheduler, v, hd, hdel, he⟩ | ⟨p, time, scheduler, halt, v, hd, hdel, he⟩
    · have hn' : ((w.record noted).scheduler.takeDue limit).1 = none := hn
      rw [he, dispatch_of_none hn', dispatchHistory_of_none hn]
      exact recordResult_of_silent rfl rfl
    · have hd' : (w.record noted).scheduler.takeDue limit = (some (p, time), scheduler) := hd
      have hp := deliver_follows h p time { w with scheduler } noted
      rw [hdel] at hp
      rw [he, dispatch_of_ok hd' hp, ih, dispatchHistory_of_ok hd hdel, calls_append,
        List.append_assoc]
    · have hd' : (w.record noted).scheduler.takeDue limit = (some (p, time), scheduler) := hd
      have hp := deliver_follows h p time { w with scheduler } noted
      rw [hdel] at hp
      rw [he, dispatch_of_error hd' hp, dispatchHistory_of_error hd hdel]
      rfl

theorem calls_scheduleDueHistory {steps : Nat} {thread : ThreadId} {limit : Instant} {w v : World σ}
    (h : onScheduler (Scheduler.enter thread limit) w = .ok () v) :
    calls (scheduleDueHistory wake history steps thread limit w) =
      calls (dispatchHistory wake history limit steps v) := by
  rw [scheduleDueHistory, h]
  show calls (dispatchHistory wake history limit steps v ++ _) = _
  rw [calls_append]
  cases dispatch wake limit steps v with
  | ok _ u => exact List.append_nil _
  | error halt u => exact List.append_nil _

private theorem scheduleDue_follows (h : Notes wake' wake history) (steps : Nat)
    (thread : ThreadId) (limit : Instant) :
    Follows (scheduleDue wake' steps thread limit) (scheduleDue wake steps thread limit)
      fun w => calls (scheduleDueHistory wake history steps thread limit w) := by
  intro w noted
  show _ = recordResult (noted ++ calls (scheduleDueHistory wake history steps thread limit w)) _
  have he := onScheduler_record (Scheduler.enter thread limit) w noted
  cases henter : onScheduler (Scheduler.enter thread limit) w with
  | error halt v =>
    rw [henter] at he
    rw [scheduleDue_of_refused henter, scheduleDue_of_refused he, scheduleDueHistory, henter]
    exact recordResult_of_silent rfl rfl
  | ok _ v =>
    rw [henter] at he
    have hdis := dispatch_follows h limit steps v noted
    rw [calls_scheduleDueHistory henter]
    cases hdispatch : dispatch wake limit steps v with
    | error halt u =>
      rw [hdispatch] at hdis
      rw [scheduleDue_of_halted henter hdispatch, scheduleDue_of_halted he hdis]
      rfl
    | ok _ u =>
      rw [hdispatch] at hdis
      rw [scheduleDue_of_ok henter hdispatch, scheduleDue_of_ok he hdis]
      rfl

private theorem schedule_follows (h : Notes wake' wake history) (steps : Nat) (thread : ThreadId)
    (limit : Instant) :
    Follows (schedule wake' steps thread limit) (schedule wake steps thread limit)
      fun w => calls (scheduleHistory wake history steps thread limit w) := by
  intro w noted
  show _ = recordResult (noted ++ calls (scheduleHistory wake history steps thread limit w)) _
  cases hi : w.scheduler.isIdleUntil limit with
  | true =>
    have hi' : (w.record noted).scheduler.isIdleUntil limit = true := hi
    rw [schedule_of_idle hi, schedule_of_idle hi', scheduleHistory, if_pos hi]
    exact recordResult_of_silent (onScheduler_record _ w noted) rfl
  | false =>
    have hi' : (w.record noted).scheduler.isIdleUntil limit = false := hi
    rw [schedule_of_due hi, schedule_of_due hi', scheduleHistory, if_neg (by simp [hi])]
    exact scheduleDue_follows h steps thread limit w noted

end World

/-- Devices that note the calls they get note those of the history, and change nothing else. -/
theorem Program.recorded_follows (p : Program σ α) :
    Follows p.recorded.run p.run fun w => calls (p.history w) := by
  induction p with
  | done a => exact .of_silent (fun _ _ => rfl) fun _ => rfl
  | halt cause => exact .of_silent (fun _ _ => rfl) fun _ => rfl
  | andThen p next ihp ihnext =>
    apply ihp.bind ihnext
    · intro w a v h
      rw [history, h]
      exact calls_append _ _
    · intro w halt v h
      rw [history, h, List.append_nil]
  | attempt p ih => exact ih.attempt
  | look f => exact .of_silent (fun _ _ => rfl) fun _ => rfl
  | work act | ask _ _ act => exact .of_silent (onDevices_record act) fun _ => rfl
  | enroll ownsSyncPoints => exact .of_silent (fun _ _ => rfl) fun _ => rfl
  | drop device =>
    refine .of_silent (drop_record device) ?_
    intro w
    rw [history]
    cases w.isOwned device <;> rfl
  | visit device p ih =>
    intro w noted
    show _ = recordResult (noted ++ calls ((visit device p).history w)) _
    rw [history]
    cases ha : w.isAlive device with
    | true =>
      have hplain : (visit device p).run w = World.during device p.run w := if_pos ha
      have hnoted : (visit device p).recorded.run (w.record noted) =
          World.during device p.recorded.run (w.record noted) := if_pos ha
      rw [if_pos rfl, World.calls_visitHistory, hplain, hnoted]
      exact ih.during device w noted
    | false =>
      have hplain : (visit device p).run w = .ok () w := if_neg (by simp [ha])
      have hnoted : (visit device p).recorded.run (w.record noted) = .ok () (w.record noted) :=
        if_neg (by rw [show (w.record noted).isAlive device = false from ha]; decide)
      rw [hplain, hnoted]
      exact recordResult_of_silent rfl rfl
  | register time device tag =>
    refine .of_silent (onScheduler_record _) ?_
    intro w
    rw [history]
    cases w.scheduler.register time device tag <;> rfl
  | cancel device tag =>
    refine .of_silent (fun _ _ => rfl) ?_
    intro w
    rw [history]
    cases w.scheduler.find? device tag <;> rfl
  | cancelAll device => exact .of_silent (fun _ _ => rfl) fun _ => rfl
  | setCurrentTime thread time => exact .of_silent (onScheduler_record _) fun _ => rfl
  | schedule wake steps thread limit ih =>
    apply World.schedule_follows
    intro device time tag
    have hnote : Follows
        (World.onDevices (modify fun d => (d.1, d.2 ++ [⟨device, time, tag⟩])))
        (pure () : Run (World σ) Unit) fun _ => [⟨device, time, tag⟩] := fun _ _ => rfl
    exact hnote.bind (fun _ => ih device time tag) (fun h => by cases h; rfl) fun h => by cases h

end Timebase
