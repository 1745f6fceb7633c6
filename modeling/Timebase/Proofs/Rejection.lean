import Timebase.Proofs.BreakingOff
import Timebase.Proofs.Ownership

/-!
# Calls that are turned away

Nothing is registered in the past, and time is moved only by its owner, only forward, and only from
outside a wake-up. A call that is turned away leaves no trace, but that time has an owner from the
first call on.
-/

namespace Timebase

variable {σ α : Type} {w w₀ v : World σ} {limit time : Instant} {thread other : ThreadId}

theorem Instant.isFinite_of_lt {a b : Instant} (ha : a ≠ .asap) (h : a < b) :
    a.isFinite = true := by
  refine Instant.isFinite_iff.mpr ⟨ha, ?_⟩
  exact Instant.lt_never_iff.mp (Instant.lt_of_lt_of_le h Instant.le_never)

namespace Scheduler

variable {s : Scheduler} {operation : OwnerOperation} {device : DeviceId} {tag : Tag}

/-- Time is owned by another thread. -/
def Foreign (thread : ThreadId) (s : Scheduler) : Prop :=
  ∃ owner, s.owner = some owner ∧ owner ≠ thread

theorem foreign_iff : s.Foreign thread ↔ s.owner.getD thread ≠ thread := by
  rw [Foreign]
  cases s.owner with
  | none => simp
  | some owner => simp

theorem owner_of_not_foreign (h : ¬ s.Foreign thread) : s.owner.getD thread = thread :=
  Classical.not_not.mp fun hn => h (foreign_iff.mpr hn)

theorem register_of_past (ht : time ≠ .asap) (h : time < s.currentTime) :
    s.register time device tag = .error (.violated (.pastSyncPoint time s.currentTime)) := by
  have hb : (time.isAsap || decide (s.currentTime ≤ time)) = false := by
    simp [Instant.isAsap_of_ne ht, Instant.not_le.mpr h]
  rw [register, hb]
  rfl

/-- An operation on time that binds its owner first and leaves everything alone for other threads. -/
structure Binds (thread : ThreadId) (act : Run Scheduler Unit) : Prop where
  foreign : ∀ {s : Scheduler}, s.Foreign thread → act.after s = s
  owner : ∀ {s : Scheduler}, ¬ s.Foreign thread → (act.after s).owner = some thread

theorem setCurrentTime_binds (thread : ThreadId) (time : Instant) :
    Binds thread (setCurrentTime thread time) where
  foreign h := Run.after_of_error (setCurrentTime_of_foreign (foreign_iff.mp h))
  owner {s} h := by
    have ho := owner_of_not_foreign h
    by_cases hb : time = .asap ∨ time < s.currentTime
    · rw [Run.after_of_error (setCurrentTime_of_back ho hb)]
      rfl
    · simp only [not_or, Instant.not_lt] at hb
      rw [Run.after_of_ok (setCurrentTime_of_ok ho hb.1 hb.2)]
      rfl

theorem idle_binds (thread : ThreadId) (limit : Instant) : Binds thread (idle thread limit) where
  foreign h := Run.after_of_error (idle_of_foreign (foreign_iff.mp h))
  owner {s} h := by
    have ho := owner_of_not_foreign h
    cases hd : s.dispatching with
    | true => rw [Run.after_of_error (idle_of_dispatching ho hd)]; rfl
    | false => rw [Run.after_of_ok (idle_of_ok ho hd)]; rfl

theorem enter_binds (thread : ThreadId) (limit : Instant) : Binds thread (enter thread limit) where
  foreign h := Run.after_of_error (enter_of_foreign (foreign_iff.mp h))
  owner {s} h := by
    have ho := owner_of_not_foreign h
    by_cases hl : limit = .asap
    · subst hl
      rw [Run.after_of_error (enter_of_asap ho)]
      rfl
    · cases hd : s.dispatching with
      | true => rw [Run.after_of_error (enter_of_dispatching ho hl hd)]; rfl
      | false => rw [Run.after_of_ok (enter_of_ok ho hl hd)]; rfl

theorem checkOwner_ownedBy (h : s.owner.getD thread = thread) :
    checkOwner thread operation (s.ownedBy thread) = checkOwner thread operation s := by
  rw [checkOwner_of_owner h, checkOwner_of_owner rfl]
  rfl

theorem setCurrentTime_ownedBy (h : s.owner.getD thread = thread) :
    setCurrentTime thread time (s.ownedBy thread) = setCurrentTime thread time s :=
  Run.bind_congr _ (checkOwner_ownedBy h)

theorem idle_ownedBy (h : s.owner.getD thread = thread) :
    idle thread limit (s.ownedBy thread) = idle thread limit s :=
  Run.bind_congr _ (checkOwner_ownedBy h)

theorem enter_ownedBy (h : s.owner.getD thread = thread) :
    enter thread limit (s.ownedBy thread) = enter thread limit s :=
  Run.bind_congr _ (checkOwner_ownedBy h)

end Scheduler

namespace World

variable {wake : Wake σ} {steps : Nat}

theorem onScheduler_boundTo {act : Run Scheduler α}
    (h : act (w.scheduler.ownedBy thread) = act w.scheduler) :
    onScheduler act (w.boundTo thread) = onScheduler act w := by
  cases ha : act w.scheduler with
  | ok a s =>
    rw [onScheduler_of_ok ha, onScheduler_of_ok (w := w.boundTo thread) (h.trans ha)]
    rfl
  | error halt s =>
    rw [onScheduler_of_error ha, onScheduler_of_error (w := w.boundTo thread) (h.trans ha)]
    rfl

theorem schedule_of_bound (ho : w.scheduler.owner.getD thread = thread) :
    schedule wake steps thread limit (w.boundTo thread) = schedule wake steps thread limit w := by
  have hsame : (w.boundTo thread).scheduler.isIdleUntil limit = w.scheduler.isIdleUntil limit :=
    rfl
  cases hi : w.scheduler.isIdleUntil limit with
  | true =>
    rw [schedule_of_idle hi, schedule_of_idle (hsame.trans hi)]
    exact onScheduler_boundTo (Scheduler.idle_ownedBy ho)
  | false =>
    rw [schedule_of_due hi, schedule_of_due (hsame.trans hi)]
    exact Run.bind_congr _ (onScheduler_boundTo (Scheduler.enter_ownedBy ho))

/-- What a call of a thread leaves of a world when it is turned away: everything is as before, but
that time may have got its first owner, and whoever owns it now gets on as without that call. -/
structure Unharmed (thread : ThreadId) (w v : World σ) : Prop where
  pending : v.scheduler.queue = w.scheduler.queue
  time : v.scheduler.currentTime = w.scheduler.currentTime
  next : v.scheduler.next = w.scheduler.next
  mark : v.scheduler.dispatching = w.scheduler.dispatching
  rest : v = { w with scheduler := v.scheduler }
  owner : v.scheduler.owner = w.scheduler.owner ∨
    w.scheduler.owner = none ∧ v.scheduler.owner = some thread
  moves : ∀ other, ¬ v.scheduler.Foreign other →
    (∀ time, (Program.setCurrentTime other time).run v =
      (Program.setCurrentTime other time).run w) ∧
    ∀ react steps limit, (Program.schedule react steps other limit).run v =
      (Program.schedule react steps other limit).run w
  works : ∀ {β : Type} (q : Program σ β), q.LeavesTime →
    q.run v = q.run w ∨ q.run v = boundResult thread (q.run w)

theorem Unharmed.refl (thread : ThreadId) (w : World σ) : Unharmed thread w w :=
  ⟨rfl, rfl, rfl, rfl, rfl, Or.inl rfl, fun _ _ => ⟨fun _ => rfl, fun _ _ _ => rfl⟩,
    fun _ _ => Or.inl rfl⟩

theorem Unharmed.of_first (ho : w.scheduler.owner = none) :
    Unharmed thread w (w.boundTo thread) where
  pending := rfl
  time := rfl
  next := rfl
  mark := rfl
  rest := rfl
  owner := Or.inr ⟨ho, rfl⟩
  moves other h := by
    have hother : thread = other := Scheduler.owner_of_not_foreign h
    subst hother
    have howner : w.scheduler.owner.getD thread = thread := by
      rw [ho]
      rfl
    exact ⟨fun _ => onScheduler_boundTo (Scheduler.setCurrentTime_ownedBy howner),
      fun _ _ _ => schedule_of_bound howner⟩
  works q hq := Or.inr (hq.impartial thread w)

theorem Unharmed.of_owner (ho : w.scheduler.owner.getD thread = thread) :
    Unharmed thread w (w.boundTo thread) := by
  cases h : w.scheduler.owner with
  | none => exact .of_first h
  | some owner =>
    rw [h] at ho
    have hsame : w.boundTo thread = w := by
      rw [boundTo, Scheduler.ownedBy_of_owner (h.trans (congrArg some ho))]
    rw [hsame]
    exact .refl thread w

/-- A call of a thread comes to nothing for a reason and only for that. -/
structure RejectedIf (reason : Prop) (thread : ThreadId) (call : Program σ Unit) (w : World σ) :
    Prop where
  rejected_iff : (∃ halt v, call.run w = .error halt v) ↔ reason
  unharmed : ∀ halt v, call.run w = .error halt v →
    (∃ cause, halt = .fault (.violated cause)) ∧ Unharmed thread w v

private theorem RejectedIf.of_error {reason : Prop} {call : Program σ Unit} {cause : Violation}
    (hreason : reason) (h : call.run w = .error (.fault (.violated cause)) v)
    (hv : Unharmed thread w v) : RejectedIf reason thread call w := by
  refine ⟨⟨fun _ => hreason, fun _ => ⟨_, _, h⟩⟩, ?_⟩
  intro halt u hu
  rw [h] at hu
  cases hu
  exact ⟨⟨cause, rfl⟩, hv⟩

private theorem RejectedIf.of_ok {reason : Prop} {call : Program σ Unit} (hreason : ¬ reason)
    (h : call.run w = .ok () v) : RejectedIf reason thread call w := by
  have hnone : ∀ halt u, call.run w ≠ .error halt u := by
    intro halt u hu
    rw [h] at hu
    cases hu
  exact ⟨⟨fun ⟨halt, u, hu⟩ => absurd hu (hnone halt u), fun hr => absurd hr hreason⟩,
    fun halt u hu => absurd hu (hnone halt u)⟩

theorem register_rejected (w : World σ) (thread : ThreadId) (time : Instant) (device : DeviceId)
    (tag : Tag) :
    RejectedIf (time.isFinite = true ∧ time < w.scheduler.currentTime) thread
      (.register time device tag) w := by
  by_cases h : time = .asap ∨ w.scheduler.currentTime ≤ time
  · refine .of_ok ?_ (register_of_ok (Scheduler.register_eq_ok.mpr ⟨h, rfl⟩))
    rintro ⟨hf, hlt⟩
    rcases h with h | h
    · exact Instant.ne_asap_of_isFinite hf h
    · exact Instant.not_lt.mpr h hlt
  · have hne : time ≠ .asap := fun he => h (Or.inl he)
    have hlt : time < w.scheduler.currentTime := Instant.not_le.mp fun hle => h (Or.inr hle)
    exact .of_error ⟨Instant.isFinite_of_lt hne hlt, hlt⟩
      (register_of_error (Scheduler.register_of_past hne hlt)) (.refl thread w)

theorem setCurrentTime_rejected (w : World σ) (thread : ThreadId) (time : Instant) :
    RejectedIf
      (w.scheduler.Foreign thread ∨ time = .asap ∨ time < w.scheduler.currentTime) thread
      (.setCurrentTime thread time) w := by
  by_cases hf : w.scheduler.Foreign thread
  · have hset := Scheduler.setCurrentTime_of_foreign (t := time) (Scheduler.foreign_iff.mp hf)
    exact .of_error (Or.inl hf) (onScheduler_of_error hset) (.refl thread w)
  · have ho := Scheduler.owner_of_not_foreign hf
    by_cases hb : time = .asap ∨ time < w.scheduler.currentTime
    · have hset := Scheduler.setCurrentTime_of_back ho hb
      exact .of_error (Or.inr hb) (onScheduler_of_error hset) (.of_owner ho)
    · have hne : time ≠ .asap := fun h => hb (Or.inl h)
      have hle : w.scheduler.currentTime ≤ time := Instant.not_lt.mp fun h => hb (Or.inr h)
      exact .of_ok (not_or.mpr ⟨hf, hb⟩)
        (onScheduler_of_ok (Scheduler.setCurrentTime_of_ok ho hne hle))

/-- A call to move time that is turned away never gets to a wake-up. -/
theorem schedule_rejected
    (h : w.scheduler.Foreign thread ∨ limit = .asap ∨ w.scheduler.dispatching = true) :
    ∃ cause v, Unharmed thread w v ∧ ∀ (wake : Wake σ) steps,
      schedule wake steps thread limit w = .error (.fault (.violated cause)) v := by
  by_cases hf : w.scheduler.Foreign thread
  · have ho := Scheduler.foreign_iff.mp hf
    refine ⟨.foreignThread .schedule, w, .refl thread w, fun wake steps => ?_⟩
    cases hi : w.scheduler.isIdleUntil limit with
    | true =>
      rw [schedule_of_idle hi, onScheduler_of_error (Scheduler.idle_of_foreign ho)]
    | false =>
      rw [schedule_of_due hi,
        scheduleDue_of_refused (onScheduler_of_error (Scheduler.enter_of_foreign ho))]
  have ho := Scheduler.owner_of_not_foreign hf
  have hunharmed : Unharmed thread w (w.boundTo thread) := .of_owner ho
  by_cases hl : limit = .asap
  · subst hl
    have hi : w.scheduler.isIdleUntil .asap = false := rfl
    refine ⟨.scheduleToAsap, _, hunharmed, fun wake steps => ?_⟩
    rw [schedule_of_due hi,
      scheduleDue_of_refused (onScheduler_of_error (Scheduler.enter_of_asap ho))]
    rfl
  have hd : w.scheduler.dispatching = true := by simpa [hf, hl] using h
  refine ⟨.reentered, _, hunharmed, fun wake steps => ?_⟩
  cases hi : w.scheduler.isIdleUntil limit with
  | true =>
    rw [schedule_of_idle hi, onScheduler_of_error (Scheduler.idle_of_dispatching ho hd)]
    rfl
  | false =>
    have hentered : w.scheduler.enteredBy thread = w.scheduler.ownedBy thread := by
      rw [Scheduler.enteredBy, ← hd]
      rfl
    rw [schedule_of_due hi,
      scheduleDue_of_refused (onScheduler_of_error (Scheduler.enter_of_dispatching ho hl hd)),
      hentered]
    rfl

/-- A call to move time that is let in breaks off only with one of its wake-ups, unless its steps
are used up. -/
theorem broken_of_schedule {react : Reaction σ} {steps : Nat} {halt : Halt}
    (h : ¬ (w.scheduler.Foreign thread ∨ limit = .asap ∨ w.scheduler.dispatching = true))
    (hrun : (Program.schedule react steps thread limit).run w = .error halt v) :
    halt = .starved ∨ ∃ r time u x,
      ⟨.woken r time, u⟩ ∈ (Program.schedule react steps thread limit).history w ∧
      (react r.device time r.tag).run (u.retain r.device) = .error halt x := by
  simp only [not_or, Bool.not_eq_true] at h
  obtain ⟨hf, hl, hd⟩ := h
  by_cases hb : NoneBreaksOff react ((Program.schedule react steps thread limit).history w)
  · rcases schedule_of_unbroken (Scheduler.owner_of_not_foreign hf) hd hl hb with
      ⟨y, hy⟩ | ⟨y, hy⟩
    · rw [hrun] at hy
      cases hy
      exact Or.inl rfl
    · rw [hrun] at hy
      cases hy
  · simp only [NoneBreaksOff, Classical.not_forall, not_exists] at hb
    obtain ⟨r, time, u, hm, hbroken⟩ := hb
    cases hx : (react r.device time r.tag).run (u.retain r.device) with
    | ok _ x => exact absurd hx (hbroken x)
    | error halt' x =>
      have hend := schedule_of_broken hm hx
      rw [hrun] at hend
      cases hend
      exact Or.inr ⟨r, time, u, x, hm, hx⟩

/-- Which calls come to nothing in a world. -/
structure TurnsAway (w : World σ) : Prop where
  register : ∀ thread time device tag,
    RejectedIf (time.isFinite = true ∧ time < w.scheduler.currentTime) thread
      (.register time device tag) w
  setCurrentTime : ∀ thread time,
    RejectedIf (w.scheduler.Foreign thread ∨ time = .asap ∨ time < w.scheduler.currentTime)
      thread (.setCurrentTime thread time) w
  schedule : ∀ thread limit,
    w.scheduler.Foreign thread ∨ limit = .asap ∨ w.scheduler.dispatching = true →
      ∃ cause v, Unharmed thread w v ∧ ∀ react steps,
        (Program.schedule react steps thread limit).run w = .error (.fault (.violated cause)) v
  letIn : ∀ thread limit,
    ¬ (w.scheduler.Foreign thread ∨ limit = .asap ∨ w.scheduler.dispatching = true) →
      ∀ react steps halt v,
        (Program.schedule react steps thread limit).run w = .error halt v →
          halt = .starved ∨ ∃ r time u x,
            ⟨.woken r time, u⟩ ∈ (Program.schedule react steps thread limit).history w ∧
            (react r.device time r.tag).run (u.retain r.device) = .error halt x

theorem turnsAway (w : World σ) : TurnsAway w where
  register := register_rejected w
  setCurrentTime := setCurrentTime_rejected w
  schedule thread limit h := by
    obtain ⟨cause, v, hv, hrun⟩ := schedule_rejected h
    exact ⟨cause, v, hv, fun react steps => hrun (Reaction.wake react) steps⟩
  letIn _ _ h _ _ _ _ hrun := broken_of_schedule h hrun

end World

/-- Every change of a program with the thread whose call to move time it belongs to. -/
def Program.signedHistory {α : Type} :
    Program σ α → World σ → List (Option ThreadId × Moment σ)
  | .andThen p next, w =>
    p.signedHistory w ++
      match p.run w with
      | .ok a v => (next a).signedHistory v
      | .error _ _ => []
  | .attempt p, w => p.signedHistory w
  | .visit device p, w =>
    if w.isAlive device then
      let v := w.retain device
      (none, ⟨.silent, v⟩) :: p.signedHistory v ++
        ((p.after v).loseHold device fun l => { l with running := l.running - 1 }).map
          fun m => (none, m)
    else []
  | .setCurrentTime thread time, w =>
    ((setCurrentTime thread time).history w).map fun m => (some thread, m)
  | .schedule react steps thread limit, w =>
    ((schedule react steps thread limit).history w).map fun m => (some thread, m)
  | p, w => (p.history w).map fun m => (none, m)

theorem Program.signedHistory_moments (p : Program σ α) (w : World σ) :
    (p.signedHistory w).map Prod.snd = p.history w := by
  induction p generalizing w with
  | andThen p next ihp ihnext =>
    rw [signedHistory, history, List.map_append, ihp]
    cases p.run w with
    | ok a v => rw [ihnext]
    | error halt v => rfl
  | attempt p ih => exact ih w
  | visit device p ih =>
    rw [signedHistory, history]
    cases w.isAlive device with
    | true => simp [World.visitHistory, ih, after, Function.comp_def]
    | false => rfl
  | _ => simp [signedHistory, Function.comp_def]

/-- The first thread to call for time to be moved. -/
def firstCaller (ms : List (Option ThreadId × Moment σ)) : Option ThreadId :=
  ms.findSome? Prod.fst

/-- A change on which time gets an owner if it belongs to a call to move time, keeps the owner it
has, and moves only if the call it belongs to is the owner's. -/
structure Owned (w : World σ) (caller : Option ThreadId) (v : World σ) : Prop where
  owner : v.scheduler.owner = w.scheduler.owner.or caller
  time : v.scheduler.currentTime ≠ w.scheduler.currentTime →
    ∃ thread, caller = some thread ∧ v.scheduler.owner = some thread

theorem Owned.of_sameTime (h : w.scheduler.SameTime v.scheduler) : Owned w none v :=
  ⟨by simp [h.owner], fun hne => absurd h.currentTime hne⟩

theorem Owned.of_scheduler_eq (h : v.scheduler = w.scheduler) : Owned w none v :=
  .of_sameTime (h ▸ .refl _)

theorem Owned.of_binds {act : Run Scheduler Unit} (h : Scheduler.Binds thread act)
    (w : World σ) : Owned w (some thread) ((World.onScheduler act).after w) := by
  rw [World.after_onScheduler]
  by_cases hf : w.scheduler.Foreign thread
  · have hsame : act.after w.scheduler = w.scheduler := h.foreign hf
    obtain ⟨owner, ho, -⟩ := hf
    rw [hsame]
    exact ⟨by simp [ho], fun hne => absurd rfl hne⟩
  · have hbound : (act.after w.scheduler).owner = some thread := h.owner hf
    refine ⟨?_, fun _ => ⟨thread, rfl, hbound⟩⟩
    have ho := Scheduler.owner_of_not_foreign hf
    show (act.after w.scheduler).owner = _
    rw [hbound]
    cases hw : w.scheduler.owner with
    | none => rfl
    | some owner =>
      rw [hw] at ho
      exact (congrArg some ho).symm

/-- A history of which every change is like that. -/
def AllOwned : World σ → List (Option ThreadId × Moment σ) → Prop
  | _, [] => True
  | w, (caller, m) :: ms => Owned w caller m.world ∧ AllOwned m.world ms

namespace AllOwned

variable {ms ns : List (Option ThreadId × Moment σ)}

theorem append (hms : AllOwned w ms) (hns : AllOwned (w.upTo (ms.map Prod.snd)) ns) :
    AllOwned w (ms ++ ns) := by
  induction ms generalizing w with
  | nil => exact hns
  | cons m ms ih => exact ⟨hms.1, ih hms.2 hns⟩

theorem of_append (h : AllOwned w (ms ++ ns)) :
    AllOwned w ms ∧ AllOwned (w.upTo (ms.map Prod.snd)) ns := by
  induction ms generalizing w with
  | nil => exact ⟨trivial, h⟩
  | cons m ms ih =>
    obtain ⟨hms, hns⟩ := ih h.2
    exact ⟨⟨h.1, hms⟩, hns⟩

theorem owner (h : AllOwned w ms) :
    (w.upTo (ms.map Prod.snd)).scheduler.owner = w.scheduler.owner.or (firstCaller ms) := by
  induction ms generalizing w with
  | nil => simp [firstCaller, World.upTo]
  | cons m ms ih =>
    have hfirst : firstCaller (m :: ms) = m.1.or (firstCaller ms) := by
      cases hm : m.1 <;> simp [firstCaller, hm]
    rw [hfirst, ← Option.or_assoc, ← h.1.owner]
    exact ih h.2

theorem of_path {ms : List (Moment σ)} (path : Path w ms v)
    (ho : w.scheduler.owner = some thread) :
    AllOwned w (ms.map fun m => (some thread, m)) := by
  induction path with
  | nil w => trivial
  | cons step _ ih =>
    have hv := step.owned ho
    exact ⟨⟨by simp [ho, hv], fun _ => ⟨thread, rfl, hv⟩⟩, ih hv⟩

end AllOwned

private theorem schedule_allOwned {react : Reaction σ} {steps : Nat} :
    AllOwned w ((Program.schedule react steps thread limit).signedHistory w) := by
  rw [Program.signedHistory]
  have path := (Program.schedule react steps thread limit).path w
  generalize (Program.schedule react steps thread limit).after w = v at path
  rw [Program.history, World.scheduleHistory] at path ⊢
  cases hi : w.scheduler.isIdleUntil limit with
  | true => exact ⟨.of_binds (Scheduler.idle_binds thread limit) w, trivial⟩
  | false =>
    simp only [hi, Bool.false_eq_true, if_false, World.scheduleDueHistory] at path ⊢
    have hbinds := Scheduler.enter_binds thread limit
    refine ⟨.of_binds hbinds w, ?_⟩
    by_cases hf : w.scheduler.Foreign thread
    · have henter : Scheduler.enter thread limit w.scheduler = _ :=
        Scheduler.enter_of_foreign (Scheduler.foreign_iff.mp hf)
      rw [World.onScheduler_of_error henter]
      trivial
    · cases path with
      | cons _ rest =>
        refine .of_path rest ?_
        rw [World.after_onScheduler]
        exact hbinds.owner hf

/-- In every run time belongs to the first who calls for it, and moves only on calls of its owner. -/
theorem Program.allOwned (p : Program σ α) (w : World σ) : AllOwned w (p.signedHistory w) := by
  induction p generalizing w with
  | done | halt | look => trivial
  | andThen p next ihp ihnext =>
    rw [signedHistory]
    refine (ihp w).append ?_
    rw [p.signedHistory_moments, (p.path w).upTo_eq]
    cases hp : p.run w with
    | ok a v =>
      rw [after, Run.after_of_ok hp]
      exact ihnext a v
    | error halt v => trivial
  | attempt p ih => exact ih w
  | work act | ask _ _ act =>
    refine ⟨.of_scheduler_eq ?_, trivial⟩
    rw [World.after_onDevices]
  | enroll ownsSyncPoints => exact ⟨.of_scheduler_eq rfl, trivial⟩
  | drop device =>
    simp only [signedHistory, history]
    cases w.isOwned device with
    | true =>
      exact ⟨.of_scheduler_eq rfl, .of_sameTime (World.bury_sameTime device _), trivial⟩
    | false => trivial
  | visit device p ih =>
    rw [signedHistory]
    cases w.isAlive device with
    | true =>
      refine ⟨.of_scheduler_eq rfl, (ih _).append ?_⟩
      rw [p.signedHistory_moments, (p.path _).upTo_eq]
      exact ⟨.of_scheduler_eq rfl, .of_sameTime (World.bury_sameTime device _), trivial⟩
    | false => trivial
  | register time device tag =>
    simp only [signedHistory, history]
    cases hr : w.scheduler.register time device tag with
    | ok s => exact ⟨.of_sameTime (Scheduler.sameTime_register hr), trivial⟩
    | error cause => trivial
  | cancel device tag =>
    simp only [signedHistory, history]
    cases w.scheduler.find? device tag with
    | some p => exact ⟨.of_sameTime (Scheduler.sameTime_cancel device tag w.scheduler), trivial⟩
    | none => trivial
  | cancelAll device =>
    exact ⟨.of_sameTime (Scheduler.sameTime_cancelAll device w.scheduler), trivial⟩
  | setCurrentTime thread time =>
    exact ⟨.of_binds (Scheduler.setCurrentTime_binds thread time) w, trivial⟩
  | schedule react steps thread limit => exact schedule_allOwned

/-- Wherever a run has got to, time belongs to the first thread that called for it to be moved, and
moves only on calls of its owner. Calls are turned away for these reasons and for no others, and
leave no trace then. Between calls no delivery is under way, within a wake-up one always is. -/
theorem rejected_calls_leave_no_trace {t : Instant} (h₀ : w₀.scheduler = Scheduler.start t)
    (p : Program σ α) :
    (p.signedHistory w₀).map Prod.snd = p.history w₀ ∧
    (p.after w₀).scheduler.dispatching = false ∧
    ∀ past future, p.signedHistory w₀ = past ++ future →
      let w := w₀.upTo (past.map Prod.snd)
      w.scheduler.owner = firstCaller past ∧
      (∀ owner, w.scheduler.owner = some owner → (p.after w₀).scheduler.owner = some owner) ∧
      AllOwned w future ∧
      World.TurnsAway w ∧
      ∀ react steps thread limit r time u,
        ⟨.woken r time, u⟩ ∈ (Program.schedule react steps thread limit).history w →
          let wakeUp := react r.device time r.tag
          AllOwned (u.retain r.device) (wakeUp.signedHistory (u.retain r.device)) ∧
          ∀ y ∈ wakeUp.worlds (u.retain r.device),
            y.scheduler.dispatching = true ∧ World.TurnsAway y := by
  refine ⟨p.signedHistory_moments w₀, ?_, ?_⟩
  · have hmark := p.keepsMark w₀
    rw [h₀] at hmark
    exact hmark
  · intro past future hsplit w
    have hall := p.allOwned w₀
    rw [hsplit] at hall
    obtain ⟨hpast, hfuture⟩ := hall.of_append
    refine ⟨?_, ?_, hfuture, World.turnsAway w, ?_⟩
    · rw [hpast.owner, h₀]
      simp [Scheduler.start]
    · intro owner ho
      have hmoments := p.signedHistory_moments w₀
      rw [hsplit, List.map_append] at hmoments
      exact (p.path_upTo hmoments.symm).2.preserves (fun step => step.owned) ho
    · intro react steps thread limit r time u hm wakeUp
      have hu := (World.deliversFor_of_woken hm).retain r.device
      refine ⟨wakeUp.allOwned _, fun y hy => ⟨(hu.worlds hy).mark, World.turnsAway y⟩⟩

/-- One thread has moved time, and another one has tried to. -/
def strangerTurnedAway : Program Unit (Except Fault Unit) :=
  .andThen twoPending fun _ =>
    .andThen (.schedule askingAgain 4 1 (.wrap 6)) fun _ =>
      .attempt (.setCurrentTime 2 (.wrap 8))

theorem rejected_calls_leave_no_trace_of_stranger :
    let w := strangerTurnedAway.after (.ofScheduler .new ())
    w.scheduler.owner = some 1 ∧ w.scheduler.currentTime = .wrap 6 ∧
      ∃ halt v, (Program.setCurrentTime 2 (.wrap 8)).run w = .error halt v ∧
        World.Unharmed 2 w v := by
  have h₀ : (World.ofScheduler .new () : World Unit).scheduler = .start .zero := rfl
  obtain ⟨hmoments, -, h⟩ := rejected_calls_leave_no_trace h₀ strangerTurnedAway
  obtain ⟨howner, -, -, hturns, -⟩ := h _ [] (List.append_nil _).symm
  rw [hmoments, (strangerTurnedAway.path _).upTo_eq] at howner hturns
  have howner := howner.trans (show _ = some 1 by decide +kernel)
  refine ⟨howner, by decide +kernel, ?_⟩
  have hset := hturns.setCurrentTime 2 (.wrap 8)
  obtain ⟨halt, v, hv⟩ := hset.rejected_iff.mpr (Or.inl ⟨1, howner, by decide⟩)
  exact ⟨halt, v, hv, (hset.unharmed halt v hv).2⟩

end Timebase
