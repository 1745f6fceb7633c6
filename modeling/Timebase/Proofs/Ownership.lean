import Timebase.Proofs.Recording

/-!
# Programs that leave time alone

What devices do apart from moving time does not depend on the thread that owns it. So a delivery
that comes to its end does so alike for every thread that may make it.
-/

namespace Timebase

namespace Scheduler

theorem register_ownedBy (thread : ThreadId) (time : Instant) (device : DeviceId) (tag : Tag)
    (s : Scheduler) :
    (s.ownedBy thread).register time device tag =
      (s.register time device tag).map fun s' => s'.ownedBy thread := by
  rw [register, register]
  show (do Attempt.demand (time.isAsap || decide (s.currentTime ≤ time)) _; _) = _
  cases (time.isAsap || decide (s.currentTime ≤ time)) with
  | true => rfl
  | false => rfl

theorem cancel_ownedBy (thread : ThreadId) (device : DeviceId) (tag : Tag) (s : Scheduler) :
    (s.ownedBy thread).cancel device tag =
      ((s.cancel device tag).1, (s.cancel device tag).2.ownedBy thread) := by
  rw [cancel, cancel]
  show (if s.pending.has (SyncPoint.isFor device tag) then _ else _) = _
  cases s.pending.has (SyncPoint.isFor device tag) with
  | true => rfl
  | false => rfl

theorem cancelAll_ownedBy (thread : ThreadId) (device : DeviceId) (s : Scheduler) :
    (s.ownedBy thread).cancelAll device =
      ((s.cancelAll device).1, (s.cancelAll device).2.ownedBy thread) := by
  apply Prod.ext
  · rfl
  · let removed := s.pending.size - (s.pending.removeAll fun p => p.device == device).size
    show (if 0 < removed then _ else _) = (if 0 < removed then _ else _ : Scheduler).ownedBy _
    by_cases h : 0 < removed
    · rw [if_pos h, if_pos h]
      rfl
    · rw [if_neg h, if_neg h]

theorem takeDue_ownedBy (thread : ThreadId) (limit : Instant) (s : Scheduler) :
    (s.ownedBy thread).takeDue limit =
      ((s.takeDue limit).1, (s.takeDue limit).2.ownedBy thread) := by
  have hpending : (s.ownedBy thread).pending = s.pending := rfl
  rw [takeDue, takeDue, hpending]
  cases s.pending.first? with
  | none => rfl
  | some p =>
    by_cases h : p.time ≤ limit
    · simp only [if_pos h]
      rfl
    · simp only [if_neg h]

end Scheduler

variable {σ α β : Type} {w v : World σ} {thread : ThreadId}

/-- The world as it is for a thread that owns time. -/
def World.boundTo (thread : ThreadId) (w : World σ) : World σ :=
  { w with scheduler := w.scheduler.ownedBy thread }

/-- An outcome as it is for a thread that owns time. -/
def boundResult (thread : ThreadId) :
    EStateM.Result Halt (World σ) α → EStateM.Result Halt (World σ) α
  | .ok a v => .ok a (v.boundTo thread)
  | .error halt v => .error halt (v.boundTo thread)

/-- A run that comes out alike whoever owns time. -/
def Impartial (act : Run (World σ) α) : Prop :=
  ∀ thread w, act (w.boundTo thread) = boundResult thread (act w)

private theorem bury_boundTo (thread : ThreadId) (device : DeviceId) (w : World σ)
    (lifetimes : List Lifetime) :
    ({ w.boundTo thread with lifetimes } : World σ).bury device =
      (({ w with lifetimes } : World σ).bury device).boundTo thread := by
  rw [World.bury, World.bury]
  cases lifetimes[device]? with
  | none => rfl
  | some l =>
    cases h : (!l.isAlive && l.ownsSyncPoints) with
    | false => simp only [h]; rfl
    | true =>
      simp only [h, if_true, World.boundTo, Scheduler.cancelAll_ownedBy]

namespace Impartial

variable {act : Run (World σ) α} {next : α → Run (World σ) β}

theorem bind (h : Impartial act) (hnext : ∀ a, Impartial (next a)) :
    Impartial (act >>= next) := by
  intro thread w
  have hw := h thread w
  cases hact : act w with
  | ok a u =>
    rw [hact] at hw
    rw [Run.bind_of_ok hw, Run.bind_of_ok hact]
    exact hnext a thread u
  | error halt u =>
    rw [hact] at hw
    rw [Run.bind_of_error hw, Run.bind_of_error hact]
    rfl

theorem attempt (h : Impartial act) : Impartial (Run.attempt act) := by
  intro thread w
  rw [Run.attempt, Run.attempt, h thread w]
  rcases act w with ⟨a, u⟩ | ⟨_ | _, u⟩ <;> rfl

theorem during (device : DeviceId) (h : Impartial act) : Impartial (World.during device act) := by
  intro thread w
  have hw : act ((w.boundTo thread).retain device) = _ := h thread (w.retain device)
  cases hact : act (w.retain device) with
  | ok a u =>
    rw [hact] at hw
    rw [World.during_of_ok hact, World.during_of_ok hw, World.release, World.release]
    exact congrArg _ (bury_boundTo thread device u _)
  | error halt u =>
    rw [hact] at hw
    rw [World.during_of_error hact, World.during_of_error hw, World.release, World.release]
    exact congrArg _ (bury_boundTo thread device u _)

theorem onDevices (act : Run σ α) : Impartial (World.onDevices act) := by
  intro thread w
  cases hact : act w.devices with
  | ok a devices =>
    have hb : act (w.boundTo thread).devices = .ok a devices := hact
    rw [World.onDevices_of_ok hact, World.onDevices_of_ok hb]
    rfl
  | error halt devices =>
    have hb : act (w.boundTo thread).devices = .error halt devices := hact
    rw [World.onDevices_of_error hact, World.onDevices_of_error hb]
    rfl

theorem drop (device : DeviceId) : Impartial (World.drop (σ := σ) device) := by
  intro thread w
  cases ho : w.isOwned device with
  | true =>
    have hb : (w.boundTo thread).isOwned device = true := ho
    rw [World.drop_of_owned ho, World.drop_of_owned hb]
    exact congrArg _ (bury_boundTo thread device w _)
  | false =>
    have hb : (w.boundTo thread).isOwned device = false := ho
    rw [World.drop_of_not_owned ho, World.drop_of_not_owned hb]
    rfl

theorem register (time : Instant) (device : DeviceId) (tag : Tag) :
    Impartial (World.register (σ := σ) time device tag) := by
  intro thread w
  have hb := Scheduler.register_ownedBy thread time device tag w.scheduler
  cases hr : w.scheduler.register time device tag with
  | ok s =>
    rw [hr] at hb
    rw [World.register_of_ok hr]
    exact World.register_of_ok (w := w.boundTo thread) hb
  | error cause =>
    rw [hr] at hb
    rw [World.register_of_error hr]
    exact World.register_of_error (w := w.boundTo thread) hb

theorem cancel (device : DeviceId) (tag : Tag) :
    Impartial (World.cancel (σ := σ) device tag) := by
  intro thread w
  have hb : (w.boundTo thread).scheduler.cancel device tag = _ :=
    Scheduler.cancel_ownedBy thread device tag w.scheduler
  rw [World.cancel_apply, World.cancel_apply, hb]
  rfl

theorem cancelAll (device : DeviceId) : Impartial (World.cancelAll (σ := σ) device) := by
  intro thread w
  have hb : (w.boundTo thread).scheduler.cancelAll device = _ :=
    Scheduler.cancelAll_ownedBy thread device w.scheduler
  rw [World.cancelAll_apply, World.cancelAll_apply, hb]
  rfl

end Impartial

/-- A program that neither moves time nor asks whose it is. -/
def Program.LeavesTime {α : Type} : Program σ α → Prop
  | .done _ | .halt _ | .work _ | .ask _ _ _ | .enroll _ | .drop _ => True
  | .register _ _ _ | .cancel _ _ | .cancelAll _ => True
  | .andThen p next => p.LeavesTime ∧ ∀ a, (next a).LeavesTime
  | .attempt p => p.LeavesTime
  | .visit _ p => p.LeavesTime
  | .look f => ∀ thread w, f (World.boundTo thread w) = f w
  | .setCurrentTime _ _ | .schedule _ _ _ _ => False

theorem Program.LeavesTime.impartial {p : Program σ α} (h : p.LeavesTime) : Impartial p.run := by
  induction p with
  | done | halt | enroll => exact fun _ _ => rfl
  | andThen p next ihp ihnext => exact (ihp h.1).bind fun a => ihnext a (h.2 a)
  | attempt p ih => exact (ih h).attempt
  | look f =>
    intro thread w
    exact congrArg (fun a => EStateM.Result.ok a (w.boundTo thread)) (h thread w)
  | work act | ask _ _ act => exact .onDevices act
  | drop device => exact .drop device
  | visit device p ih =>
    intro thread w
    cases ha : w.isAlive device with
    | true =>
      have hvisit : (visit device p).run w = World.during device p.run w := if_pos ha
      have hb : (visit device p).run (w.boundTo thread) =
          World.during device p.run (w.boundTo thread) := if_pos ha
      rw [hvisit, hb]
      exact (ih h).during device thread w
    | false =>
      have hvisit : (visit device p).run w = .ok () w := if_neg (by simp [ha])
      have hb : (visit device p).run (w.boundTo thread) = .ok () (w.boundTo thread) :=
        if_neg (by rw [show (w.boundTo thread).isAlive device = false from ha]; decide)
      rw [hvisit, hb]
      rfl
  | register time device tag => exact .register time device tag
  | cancel device tag => exact .cancel device tag
  | cancelAll device => exact .cancelAll device
  | setCurrentTime | schedule => exact h.elim

/-- Devices that note the calls they get leave time alone if they do so without the notes. -/
theorem Program.LeavesTime.recorded {p : Program σ α} (h : p.LeavesTime) :
    p.recorded.LeavesTime := by
  induction p with
  | andThen p next ihp ihnext => exact ⟨ihp h.1, fun a => ihnext a (h.2 a)⟩
  | attempt p ih => exact ih h
  | visit device p ih => exact ih h
  | look f => exact fun thread w => h thread w.unrecorded
  | setCurrentTime | schedule => exact h.elim
  | _ => trivial

/-- Devices that leave time alone whatever wakes them. -/
def Reaction.LeavesTime (react : Reaction σ) : Prop :=
  ∀ device time tag, (react device time tag).LeavesTime

namespace World

variable {react : Reaction σ} {steps : Nat} {limit : Instant}

private theorem deliver_impartial (h : react.LeavesTime) (p : SyncPoint) (time : Instant) :
    Impartial (deliver react.wake p time) := by
  intro thread w
  cases ha : w.isAlive p.device with
  | true =>
    have hb : (w.boundTo thread).isAlive p.device = true := ha
    rw [deliver_of_alive ha, deliver_of_alive hb]
    exact (h p.device time p.tag).impartial.during p.device thread w
  | false =>
    have hb : (w.boundTo thread).isAlive p.device = false := ha
    rw [deliver_of_gone ha, deliver_of_gone hb]
    rfl

theorem dispatch_impartial (h : react.LeavesTime) (limit : Instant) (steps : Nat) :
    Impartial (dispatch react.wake limit steps) := by
  induction steps with
  | zero => exact fun _ _ => rfl
  | succ steps ih =>
    intro thread w
    have hb : (w.boundTo thread).scheduler.takeDue limit = _ :=
      Scheduler.takeDue_ownedBy thread limit w.scheduler
    rcases dispatch_succ react.wake limit steps w with
      ⟨hn, he⟩ | ⟨p, time, s, v, hd, hp, he⟩ | ⟨p, time, s, halt, v, hd, hp, he⟩
    · rw [hn] at hb
      rw [he]
      exact dispatch_of_none (congrArg Prod.fst hb)
    all_goals
      have hdeliver := deliver_impartial h p time thread { w with scheduler := s }
      rw [hd] at hb
      rw [hp] at hdeliver
    · rw [he, dispatch_of_ok hb hdeliver]
      exact ih thread v
    · rw [he]
      exact dispatch_of_error hb hdeliver

/-- What one thread may have delivered any other may that meets no owner. -/
theorem schedule_boundTo {other : ThreadId} (h : react.LeavesTime)
    (ho : w.scheduler.owner.getD thread = thread)
    (hv : schedule react.wake steps other limit w = .ok () v) :
    schedule react.wake steps thread limit w = .ok () (v.boundTo thread) := by
  cases hi : w.scheduler.isIdleUntil limit with
  | true =>
    rw [schedule_of_idle hi] at hv
    obtain ⟨s, hs, rfl⟩ := onScheduler_eq_ok.mp hv
    obtain ⟨-, hd, rfl⟩ := Scheduler.idle_eq_ok.mp hs
    rw [schedule_of_idle hi, onScheduler_of_ok (Scheduler.idle_of_ok ho hd)]
    rfl
  | false =>
    rw [schedule_of_due hi] at hv
    obtain ⟨s, u, henter, hu, rfl⟩ := scheduleDue_eq_ok.mp hv
    obtain ⟨-, hl, hd, rfl⟩ := Scheduler.enter_eq_ok.mp henter
    have hbound := dispatch_impartial h limit steps thread
      { w with scheduler := w.scheduler.enteredBy other }
    rw [hu] at hbound
    rw [schedule_of_due hi]
    exact scheduleDue_eq_ok.mpr ⟨_, _, Scheduler.enter_of_ok ho hl hd, hbound, rfl⟩

end World
end Timebase
