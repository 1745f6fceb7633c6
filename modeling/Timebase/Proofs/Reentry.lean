import Timebase.Proofs.Path

/-!
# One delivery at a time

Every program leaves the mark of a delivery under way as it was. Within a delivery no other one
begins, so a call to move time delivers only what is due up to its own limit.
-/

namespace Timebase

variable {σ α : Type}

/-- All that is taken in a history is due up to a limit. -/
def DueUpTo (limit : Instant) (ms : List (Moment σ)) : Prop :=
  ∀ m ∈ ms, ∀ p ∈ m.event.taken, p.time ≤ limit

/-- Nothing is taken in a history. -/
def Quiet (ms : List (Moment σ)) : Prop := ∀ m ∈ ms, m.event.taken = []

namespace Quiet

variable {ms ns : List (Moment σ)} {m : Moment σ}

theorem nil : Quiet ([] : List (Moment σ)) := List.forall_mem_nil _

theorem cons (h : m.event.taken = []) (hms : Quiet ms) : Quiet (m :: ms) :=
  List.forall_mem_cons.mpr ⟨h, hms⟩

theorem append (hms : Quiet ms) (hns : Quiet ns) : Quiet (ms ++ ns) :=
  List.forall_mem_append.mpr ⟨hms, hns⟩

theorem dueUpTo (h : Quiet ms) (limit : Instant) : DueUpTo limit ms := by
  intro m hm p hp
  rw [h m hm] at hp
  cases hp

end Quiet

theorem DueUpTo.cons {limit : Instant} {m : Moment σ} {ms : List (Moment σ)}
    (h : ∀ p ∈ m.event.taken, p.time ≤ limit) (hms : DueUpTo limit ms) : DueUpTo limit (m :: ms) :=
  List.forall_mem_cons.mpr ⟨h, hms⟩

theorem DueUpTo.append {limit : Instant} {ms ns : List (Moment σ)} (hms : DueUpTo limit ms)
    (hns : DueUpTo limit ns) : DueUpTo limit (ms ++ ns) :=
  List.forall_mem_append.mpr ⟨hms, hns⟩

namespace Scheduler

variable {s s' : Scheduler} {thread : ThreadId} {t limit : Instant} {device : DeviceId} {tag : Tag}

theorem setCurrentTime_dispatching (thread : ThreadId) (t : Instant) (s : Scheduler) :
    ((setCurrentTime thread t).after s).dispatching = s.dispatching := by
  rcases setCurrentTime_after thread t s with h | ⟨-, h | ⟨-, h⟩⟩
  all_goals simp only [h, ownedBy]

theorem idle_dispatching (thread : ThreadId) (limit : Instant) (s : Scheduler) :
    ((idle thread limit).after s).dispatching = s.dispatching := by
  rcases idle_after thread limit s with h | ⟨-, h | h⟩
  all_goals simp only [h, ownedBy, reach]

theorem enter_dispatching_of_error {halt : Halt} (h : enter thread limit s = .error halt s') :
    s'.dispatching = s.dispatching := by
  by_cases ho : s.owner.getD thread = thread
  · by_cases hl : limit = .asap
    · rw [hl, enter_of_asap ho] at h
      cases h
      rfl
    · cases hd : s.dispatching with
      | true =>
        rw [enter_of_dispatching ho hl hd] at h
        cases h
        rfl
      | false =>
        rw [enter_of_ok ho hl hd] at h
        cases h
  · rw [enter_of_foreign ho] at h
    cases h
    rfl

theorem idle_currentTime_of_dispatching (thread : ThreadId) (limit : Instant)
    (hd : s.dispatching = true) : ((idle thread limit).after s).currentTime = s.currentTime := by
  by_cases ho : s.owner.getD thread = thread
  · rw [Run.after_of_error (idle_of_dispatching ho hd), ownedBy]
  · rw [Run.after_of_error (idle_of_foreign ho)]

theorem enter_currentTime_of_error {halt : Halt} (h : enter thread limit s = .error halt s') :
    s'.currentTime = s.currentTime := by
  rw [← Run.after_of_error h]
  rcases enter_after thread limit s with h | ⟨-, h | h⟩
  all_goals simp only [h, ownedBy, enteredBy]

theorem takeDue_dispatching {p : SyncPoint}
    (h : s.takeDue limit = (some (p, t), s')) : s'.dispatching = s.dispatching := by
  obtain ⟨rest, -, -, -, rfl⟩ := takeDue_eq_some.mp h
  rfl

end Scheduler

namespace World

variable {w v : World σ} {act : Run (World σ) α} {inner : World σ → List (Moment σ)}
  {wake : Wake σ} {history : DeviceId → Instant → Tag → World σ → List (Moment σ)} {steps : Nat}
  {thread : ThreadId} {limit time : Instant} {p : SyncPoint} {scheduler : Scheduler}

/-- A run that leaves the mark of a delivery under way as it was. -/
def KeepsMark (act : Run (World σ) α) : Prop :=
  ∀ w, (act.after w).scheduler.dispatching = w.scheduler.dispatching

theorem KeepsMark.during (h : KeepsMark act) (device : DeviceId) :
    KeepsMark (World.during device act) := by
  intro w
  rw [after_during, (release_sameTime device _).dispatching]
  exact h (w.retain device)

theorem KeepsMark.onScheduler {act : Run Scheduler α}
    (h : ∀ s, (act.after s).dispatching = s.dispatching) :
    KeepsMark (World.onScheduler act : Run (World σ) α) := by
  intro w
  rw [after_onScheduler]
  exact h w.scheduler

theorem KeepsMark.drop (device : DeviceId) :
    KeepsMark (World.drop device : Run (World σ) Bool) := by
  intro w
  cases ho : w.isOwned device with
  | true =>
    rw [Run.after_of_ok (drop_of_owned ho), (bury_sameTime device _).dispatching]
  | false => rw [Run.after_of_ok (drop_of_not_owned ho)]

private theorem KeepsMark.deliver (h : ∀ device time tag, KeepsMark (wake device time tag))
    (p : SyncPoint) (time : Instant) : KeepsMark (World.deliver wake p time) := by
  intro w
  cases ha : w.isAlive p.device with
  | true =>
    rw [Run.after_congr (deliver_of_alive ha)]
    exact (h p.device time p.tag).during p.device w
  | false => rw [Run.after_of_ok (deliver_of_gone ha)]

theorem KeepsMark.dispatch (h : ∀ device time tag, KeepsMark (wake device time tag))
    (limit : Instant) (steps : Nat) : KeepsMark (World.dispatch wake limit steps) := by
  induction steps with
  | zero => exact fun w => rfl
  | succ steps ih =>
    intro w
    rcases dispatch_succ wake limit steps w with
      ⟨-, he⟩ | ⟨p, time, scheduler, v, hd, hp, he⟩ | ⟨p, time, scheduler, halt, v, hd, hp, he⟩
    · rw [Run.after_of_ok he]
    · have hdeliver := KeepsMark.deliver h p time { w with scheduler }
      rw [Run.after_of_ok hp] at hdeliver
      rw [Run.after_congr he, ih v, hdeliver]
      exact Scheduler.takeDue_dispatching hd
    · have hdeliver := KeepsMark.deliver h p time { w with scheduler }
      rw [Run.after_of_error hp] at hdeliver
      rw [Run.after_of_error he, hdeliver]
      exact Scheduler.takeDue_dispatching hd

theorem KeepsMark.schedule (wake : Wake σ) (steps : Nat) (thread : ThreadId) (limit : Instant) :
    KeepsMark (World.schedule wake steps thread limit) := by
  intro w
  cases hi : w.scheduler.isIdleUntil limit with
  | true =>
    rw [Run.after_congr (schedule_of_idle hi)]
    exact KeepsMark.onScheduler (Scheduler.idle_dispatching thread limit) w
  | false =>
    rw [Run.after_congr (schedule_of_due hi)]
    cases he : Scheduler.enter thread limit w.scheduler with
    | error halt s =>
      rw [Run.after_of_error (scheduleDue_of_refused (onScheduler_of_error he))]
      exact Scheduler.enter_dispatching_of_error he
    | ok _ s =>
      obtain ⟨-, -, hmark, -⟩ := Scheduler.enter_eq_ok.mp he
      rw [hmark]
      have henter : World.onScheduler (Scheduler.enter thread limit) w = .ok () _ :=
        onScheduler_of_ok he
      cases hd : World.dispatch wake limit steps { w with scheduler := s } with
      | error halt u =>
        rw [Run.after_of_error (scheduleDue_of_halted henter hd)]
        rfl
      | ok _ u =>
        rw [Run.after_of_ok (scheduleDue_of_ok henter hd)]
        rfl

end World

/-- The mark of a delivery under way belongs to whoever set it. -/
theorem Program.keepsMark (p : Program σ α) : World.KeepsMark p.run := by
  induction p with
  | done a => exact fun w => rfl
  | halt cause => exact fun w => rfl
  | andThen p next ihp ihnext =>
    intro w
    rcases Run.ok_or_error p.run w with ⟨a, hp⟩ | ⟨halt, hp⟩
    · have hafter : (andThen p next).run.after w = (next a).run.after (p.run.after w) :=
        after_andThen_of_ok hp
      rw [hafter, ihnext a, ihp w]
    · have hafter : (andThen p next).run.after w = p.run.after w :=
        after_andThen_of_error hp
      rw [hafter, ihp w]
  | attempt p ih =>
    intro w
    rw [run, Run.after_attempt]
    exact ih w
  | look f => exact fun w => rfl
  | work act | ask _ _ act =>
    intro w
    rw [run, World.after_onDevices]
  | enroll ownsSyncPoints => exact fun w => rfl
  | drop device => exact .drop device
  | visit device p ih =>
    intro w
    cases ha : w.isAlive device with
    | true =>
      have hafter : (visit device p).run.after w = (World.during device p.run).after w :=
        after_visit_of_alive ha
      rw [hafter]
      exact ih.during device w
    | false =>
      have hafter : (visit device p).run.after w = w := after_visit_of_gone ha
      rw [hafter]
  | register time device tag =>
    intro w
    cases hr : w.scheduler.register time device tag with
    | ok scheduler =>
      rw [run, Run.after_of_ok (World.register_of_ok hr)]
      exact (Scheduler.sameTime_register hr).dispatching
    | error cause => rw [run, Run.after_of_error (World.register_of_error hr)]
  | cancel device tag => exact fun w => (Scheduler.sameTime_cancel device tag w.scheduler).dispatching
  | cancelAll device => exact fun w => (Scheduler.sameTime_cancelAll device w.scheduler).dispatching
  | setCurrentTime thread time =>
    exact .onScheduler (Scheduler.setCurrentTime_dispatching thread time)
  | schedule wake steps thread limit => exact .schedule _ steps thread limit

namespace World

variable {w v : World σ} {act : Run (World σ) α} {inner : World σ → List (Moment σ)}
  {wake : Wake σ} {history : DeviceId → Instant → Tag → World σ → List (Moment σ)} {steps : Nat}
  {thread : ThreadId} {limit time : Instant} {p : SyncPoint} {scheduler : Scheduler}

theorem loseHold_quiet (device : DeviceId) (change : Lifetime → Lifetime) (w : World σ) :
    Quiet (w.loseHold device change) := .cons rfl (.cons rfl .nil)

theorem visitHistory_quiet (device : DeviceId) (h : Quiet (inner (w.retain device))) :
    Quiet (w.visitHistory device act inner) :=
  (h.cons rfl).append (loseHold_quiet device _ _)

private theorem deliverHistory_dueUpTo
    (hquiet : ∀ device time tag v, v.scheduler.dispatching = true →
      Quiet (history device time tag v))
    (hp : p.time ≤ limit) (hw : w.scheduler.dispatching = true) :
    DueUpTo limit (deliverHistory wake history p time w) := by
  have hone : ∀ q ∈ [p], q.time ≤ limit := by simp [hp]
  rw [deliverHistory]
  cases w.isAlive p.device with
  | true =>
    have hvisit : Quiet (visitHistory p.device (wake p.device time p.tag)
        (history p.device time p.tag) w) := visitHistory_quiet p.device (hquiet _ _ _ _ hw)
    exact .cons hone (hvisit.dueUpTo limit)
  | false => exact .cons hone (Quiet.nil.dueUpTo limit)

private theorem dispatchHistory_dueUpTo
    (hmark : ∀ device time tag, KeepsMark (wake device time tag))
    (hquiet : ∀ device time tag v, v.scheduler.dispatching = true →
      Quiet (history device time tag v))
    (hw : w.scheduler.dispatching = true) :
    DueUpTo limit (dispatchHistory wake history limit steps w) := by
  induction steps generalizing w with
  | zero => exact Quiet.nil.dueUpTo limit
  | succ steps ih =>
    rcases dispatch_succ wake limit steps w with
      ⟨hn, -⟩ | ⟨p, time, scheduler, v, hd, hdel, -⟩ | ⟨p, time, scheduler, halt, v, hd, hdel, -⟩
    · rw [dispatchHistory_of_none hn]
      exact Quiet.nil.dueUpTo limit
    all_goals
      obtain ⟨-, -, hp, -⟩ := Scheduler.takeDue_eq_some.mp hd
      have hmarked : scheduler.dispatching = true := by rw [Scheduler.takeDue_dispatching hd, hw]
      have hfirst : DueUpTo limit (deliverHistory wake history p time { w with scheduler }) :=
        deliverHistory_dueUpTo hquiet hp hmarked
    · have hdeliver := KeepsMark.deliver hmark p time { w with scheduler }
      rw [Run.after_of_ok hdel] at hdeliver
      rw [dispatchHistory_of_ok hd hdel]
      exact hfirst.append (ih (hdeliver.trans hmarked))
    · rw [dispatchHistory_of_error hd hdel]
      exact hfirst

private theorem scheduleHistory_dueUpTo
    (hmark : ∀ device time tag, KeepsMark (wake device time tag))
    (hquiet : ∀ device time tag v, v.scheduler.dispatching = true →
      Quiet (history device time tag v)) :
    DueUpTo limit (scheduleHistory wake history steps thread limit w) := by
  rw [scheduleHistory]
  cases hi : w.scheduler.isIdleUntil limit with
  | true => exact (Quiet.nil.cons rfl).dueUpTo limit
  | false =>
    rw [if_neg Bool.false_ne_true, scheduleDueHistory]
    apply DueUpTo.cons (List.forall_mem_nil _)
    cases he : onScheduler (Scheduler.enter thread limit) w with
    | error halt v => exact Quiet.nil.dueUpTo limit
    | ok _ v =>
      obtain ⟨s, hs, rfl⟩ := onScheduler_eq_ok.mp he
      obtain ⟨-, -, -, rfl⟩ := Scheduler.enter_eq_ok.mp hs
      apply (dispatchHistory_dueUpTo hmark hquiet rfl).append
      cases dispatch wake limit steps _ with
      | ok _ u => exact (Quiet.cons rfl (Quiet.nil.cons rfl)).dueUpTo limit
      | error halt u => exact (Quiet.nil.cons rfl).dueUpTo limit

end World

/-- A change within a delivery takes nothing, leaves the mark to the delivery, and does not move time
unless it sets it. -/
structure Aside (w : World σ) (e : Event) (v : World σ) : Prop where
  quiet : e.taken = []
  mark : v.scheduler.dispatching = w.scheduler.dispatching
  time : e ≠ .timeSet → v.scheduler.currentTime = w.scheduler.currentTime

theorem Aside.of_sameTime {w v : World σ} {e : Event} (he : e.taken = [])
    (h : w.scheduler.SameTime v.scheduler) : Aside w e v :=
  ⟨he, h.dispatching, fun _ => h.currentTime⟩

theorem Aside.of_scheduler_eq {w v : World σ} {e : Event} (he : e.taken = [])
    (h : v.scheduler = w.scheduler) : Aside w e v :=
  .of_sameTime he (h ▸ .refl _)

/-- A history of which every change is one within a delivery. -/
def AllAside : World σ → List (Moment σ) → Prop
  | _, [] => True
  | w, m :: ms => Aside w m.event m.world ∧ AllAside m.world ms

namespace AllAside

variable {w v : World σ} {ms ns : List (Moment σ)} {e : Event}

theorem single (h : Aside w e v) : AllAside w [⟨e, v⟩] := ⟨h, trivial⟩

theorem append (hms : AllAside w ms) (hns : AllAside (w.upTo ms) ns) : AllAside w (ms ++ ns) := by
  induction ms generalizing w with
  | nil => exact hns
  | cons m ms ih => exact ⟨hms.1, ih hms.2 hns⟩

theorem quiet (h : AllAside w ms) : Quiet ms := by
  induction ms generalizing w with
  | nil => exact .nil
  | cons m ms ih => exact .cons h.1.quiet (ih h.2)

theorem mark (h : AllAside w ms) : ∀ m ∈ ms,
    m.world.scheduler.dispatching = w.scheduler.dispatching := by
  induction ms generalizing w with
  | nil => exact List.forall_mem_nil _
  | cons m ms ih =>
    refine List.forall_mem_cons.mpr ⟨h.1.mark, ?_⟩
    intro n hn
    rw [ih h.2 n hn, h.1.mark]

theorem time (h : AllAside w ms) :
    (w.upTo ms).scheduler.currentTime = w.scheduler.currentTime ∨
      ∃ m ∈ ms, m.event = .timeSet ∧
        m.world.scheduler.currentTime = (w.upTo ms).scheduler.currentTime := by
  induction ms generalizing w with
  | nil => exact Or.inl rfl
  | cons m ms ih =>
    rcases ih h.2 with hm | ⟨n, hn, hset, htime⟩
    · by_cases he : m.event = .timeSet
      · exact Or.inr ⟨m, List.mem_cons_self, he, hm.symm⟩
      · exact Or.inl (hm.trans (h.1.time he))
    · exact Or.inr ⟨n, List.mem_cons_of_mem m hn, hset, htime⟩

end AllAside

namespace World

variable {w v : World σ} {act : Run (World σ) α} {inner : World σ → List (Moment σ)}
  {wake : Wake σ} {history : DeviceId → Instant → Tag → World σ → List (Moment σ)} {steps : Nat}
  {thread : ThreadId} {limit : Instant}

private theorem loseHold_aside (device : DeviceId) (change : Lifetime → Lifetime) (w : World σ) :
    AllAside w (w.loseHold device change) :=
  ⟨.of_scheduler_eq rfl rfl, .of_sameTime rfl (bury_sameTime device _), trivial⟩

private theorem visitHistory_aside (device : DeviceId)
    (h : AllAside (w.retain device) (inner (w.retain device)))
    (hend : (w.retain device).upTo (inner (w.retain device)) = act.after (w.retain device)) :
    AllAside w (w.visitHistory device act inner) := by
  refine ⟨.of_scheduler_eq rfl rfl, h.append ?_⟩
  show AllAside ((w.retain device).upTo (inner (w.retain device))) _
  rw [hend]
  exact loseHold_aside device _ _

/-- A call from within a delivery is turned away. -/
private theorem scheduleHistory_aside (hw : w.scheduler.dispatching = true) :
    AllAside w (scheduleHistory wake history steps thread limit w) := by
  rw [scheduleHistory]
  cases hi : w.scheduler.isIdleUntil limit with
  | true =>
    refine .single ⟨rfl, ?_, fun _ => ?_⟩
    · exact KeepsMark.onScheduler (Scheduler.idle_dispatching thread limit) w
    · rw [after_onScheduler]
      exact Scheduler.idle_currentTime_of_dispatching thread limit hw
  | false =>
    rw [if_neg Bool.false_ne_true, scheduleDueHistory]
    cases he : onScheduler (Scheduler.enter thread limit) w with
    | error halt v =>
      obtain ⟨s, hs, rfl⟩ := onScheduler_eq_error.mp he
      rw [Run.after_of_error he]
      exact .single ⟨rfl, Scheduler.enter_dispatching_of_error hs, fun _ =>
        Scheduler.enter_currentTime_of_error hs⟩
    | ok _ v =>
      obtain ⟨s, hs, rfl⟩ := onScheduler_eq_ok.mp he
      obtain ⟨-, -, hmark, -⟩ := Scheduler.enter_eq_ok.mp hs
      rw [hw] at hmark
      cases hmark

end World

/-- While a delivery is under way no program has another one begun, and none moves time but by
setting it. -/
theorem Program.history_aside (p : Program σ α) {w : World σ}
    (hw : w.scheduler.dispatching = true) : AllAside w (p.history w) := by
  induction p generalizing w with
  | done a => trivial
  | halt cause => trivial
  | andThen p next ihp ihnext =>
    rw [history]
    apply (ihp hw).append
    rw [(p.path w).upTo_eq]
    cases hp : p.run w with
    | ok a v =>
      have hv := p.keepsMark w
      rw [Run.after_of_ok hp, hw] at hv
      rw [after, Run.after_of_ok hp]
      exact ihnext a hv
    | error halt v => trivial
  | attempt p ih => exact ih hw
  | look f => trivial
  | work act | ask _ _ act =>
    rw [history, World.after_onDevices]
    exact .single (.of_scheduler_eq rfl rfl)
  | enroll ownsSyncPoints => exact .single (.of_scheduler_eq rfl rfl)
  | drop device =>
    rw [history]
    cases w.isOwned device with
    | true => exact World.loseHold_aside device _ w
    | false => trivial
  | visit device p ih =>
    rw [history]
    cases w.isAlive device with
    | true => exact World.visitHistory_aside device (ih hw) (p.path _).upTo_eq
    | false => trivial
  | register time device tag =>
    rw [history]
    cases hr : w.scheduler.register time device tag with
    | ok scheduler => exact .single (.of_sameTime rfl (Scheduler.sameTime_register hr))
    | error cause => trivial
  | cancel device tag =>
    rw [history]
    cases w.scheduler.find? device tag with
    | some p => exact .single (.of_sameTime rfl (Scheduler.sameTime_cancel device tag w.scheduler))
    | none => trivial
  | cancelAll device =>
    exact .single (.of_sameTime rfl (Scheduler.sameTime_cancelAll device w.scheduler))
  | setCurrentTime thread time =>
    refine .single ⟨rfl, ?_, fun h => absurd rfl h⟩
    exact World.KeepsMark.onScheduler (Scheduler.setCurrentTime_dispatching thread time) w
  | schedule wake steps thread limit => exact World.scheduleHistory_aside hw

theorem Program.history_quiet (p : Program σ α) {w : World σ}
    (hw : w.scheduler.dispatching = true) : Quiet (p.history w) := (p.history_aside hw).quiet

theorem Program.schedule_dueUpTo (react : Reaction σ) (steps : Nat) (thread : ThreadId)
    (limit : Instant) (w : World σ) :
    DueUpTo limit ((schedule react steps thread limit).history w) :=
  World.scheduleHistory_dueUpTo (fun device time tag => (react device time tag).keepsMark)
    fun device time tag _ => (react device time tag).history_quiet

end Timebase
