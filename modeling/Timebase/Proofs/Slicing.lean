import Timebase.Proofs.Pending
import Timebase.Proofs.Recording
import Timebase.Proofs.Reentry

/-!
# Moving time in slices

A stop on the way changes nothing: time moved to an earlier limit first and then to the later one
wakes the same devices at the same instants and ends in the same world as time moved there at once.
-/

namespace Timebase

namespace Scheduler

variable {s s' : Scheduler} {thread : ThreadId} {a b t limit : Instant} {p : SyncPoint}

theorem key_deliveryTime (hp : p.time ≠ .asap) :
    (s.deliveryTime p).key = max p.time.key s.currentTime.key := by
  rw [deliveryTime, Instant.isAsap_of_ne hp, if_neg Bool.false_ne_true]
  by_cases h : p.time < s.currentTime
  · rw [if_pos h]
    rw [Instant.lt_iff_key] at h
    omega
  · rw [if_neg h]
    rw [Instant.lt_iff_key] at h
    omega

theorem deliveryTime_ne_asap (ht : s.currentTime ≠ .asap) : s.deliveryTime p ≠ .asap := by
  rw [deliveryTime]
  by_cases hp : p.time = .asap
  · rw [hp, Instant.isAsap_asap, if_pos rfl]
    exact ht
  · rw [Instant.isAsap_of_ne hp, if_neg Bool.false_ne_true]
    by_cases h : p.time < s.currentTime
    · rw [if_pos h]
      exact ht
    · rw [if_neg h]
      exact hp

theorem reach_reach (ht : s.currentTime ≠ .asap) (ha : a ≠ .asap) (hab : a ≤ b) :
    (s.reach a).reach b = s.reach b := by
  show { s with currentTime := (s.currentTime.later a).later b } = _
  rw [Instant.later_later ht ha hab]
  rfl

theorem takeDue_of_le (h : s.takeDue b = (some (p, t), s')) (hp : p.time ≤ a) :
    s.takeDue a = (some (p, t), s') := by
  obtain ⟨rest, hq, -, ht, hs⟩ := takeDue_eq_some.mp h
  exact takeDue_eq_some.mpr ⟨rest, hq, hp, ht, hs⟩

theorem takeDue_none_of_le (hab : a ≤ b) (h : (s.takeDue b).1 = none) :
    (s.takeDue a).1 = none := by
  rw [takeDue_of_none fun p hp => ?_]
  exact Instant.lt_of_le_of_lt hab (lt_of_takeDue_none h p hp)

/-- What comes due later is delivered at the same instant though time has moved on in between. -/
theorem takeDue_reach (ht : s.currentTime ≠ .asap) (ha : a ≠ .asap)
    (hn : (s.takeDue a).1 = none) (h : s.takeDue b = (some (p, t), s')) :
    (s.reach a).takeDue b = (some (p, t), s') := by
  obtain ⟨rest, hq, hp, ht', hs'⟩ := takeDue_eq_some.mp h
  have hlt := lt_of_takeDue_none hn p (mem_of_takeDue h)
  have hne := Instant.ne_asap_of_lt hlt
  have htime : (s.reach a).deliveryTime p = s.deliveryTime p := by
    apply Instant.key_injective
    rw [key_deliveryTime hne, key_deliveryTime hne]
    show max p.time.key (s.currentTime.later a).key = _
    rw [Instant.key_later ht ha]
    rw [Instant.lt_iff_key] at hlt
    omega
  refine takeDue_eq_some.mpr ⟨rest, hq, hp, ht'.trans htime.symm, ?_⟩
  rw [hs', htime]
  rfl

theorem isIdleUntil_of_le (ha : a ≠ .asap) (hab : a ≤ b) (h : s.isIdleUntil b = true) :
    s.isIdleUntil a = true := by
  rw [isIdleUntil, Bool.and_eq_true, decide_eq_true_iff] at h ⊢
  rw [Instant.le_iff_key] at hab
  exact ⟨by rw [Instant.isAsap_of_ne ha]; rfl, by omega⟩

theorem Sound.takeDue_of_isIdleUntil (hs : Sound s) (hi : s.isIdleUntil limit = true)
    (thread : ThreadId) :
    (s.enteredBy thread).takeDue limit = (none, s.enteredBy thread) :=
  takeDue_of_none (hs.lt_of_isIdleUntil hi).2

theorem SamePending.isIdleUntil (h : SamePending s s') (limit : Instant) :
    s'.isIdleUntil limit = s.isIdleUntil limit := by
  rw [Scheduler.isIdleUntil, Scheduler.isIdleUntil, h.nextKey]

end Scheduler

variable {σ α : Type} {w w₀ v u : World σ} {e : Event}

theorem Step.timed (h : Step w e v) (ht : w.scheduler.currentTime ≠ .asap) :
    v.scheduler.currentTime ≠ .asap := by
  cases h with
  | register h => rwa [(Scheduler.sameTime_register h).currentTime]
  | cancel _ => rwa [(Scheduler.sameTime_cancel _ _ w.scheduler).currentTime]
  | cancelAll device => rwa [(Scheduler.sameTime_cancelAll device w.scheduler).currentTime]
  | bury device => rwa [(World.bury_sameTime device w).currentTime]
  | wake h _ | skip h _ =>
    obtain ⟨rest, -, -, -, rfl⟩ := Scheduler.takeDue_eq_some.mp h
    exact Scheduler.deliveryTime_ne_asap ht
  | setCurrentTime thread time =>
    rcases Scheduler.setCurrentTime_after thread time w.scheduler with h | ⟨-, h | ⟨hne, h⟩⟩
    all_goals rw [h]; assumption
  | idle thread hidle =>
    rcases Scheduler.idle_after thread _ w.scheduler with h | ⟨-, h | h⟩
    · rwa [h]
    · rwa [h]
    · rw [h]
      exact Instant.later_ne_asap ht (Scheduler.ne_asap_of_isIdleUntil hidle)
  | enter thread limit =>
    rcases Scheduler.enter_after thread limit w.scheduler with h | ⟨-, h | h⟩
    all_goals rw [h]; assumption
  | reach hlimit _ => exact Instant.later_ne_asap ht hlimit
  | leave | live _ | work _ | ask _ _ _ => exact ht

theorem Program.worlds_timed {t : Instant} {p : Program σ α}
    (h₀ : w₀.scheduler = Scheduler.start t) (ht : t ≠ .asap) (hw : w ∈ p.worlds w₀) :
    w.scheduler.currentTime ≠ .asap := by
  apply p.worlds_preserve (fun step => step.timed) hw
  rw [h₀]
  exact ht

theorem Step.owned {thread : ThreadId} (h : Step w e v) (ho : w.scheduler.owner = some thread) :
    v.scheduler.owner = some thread := by
  have hbound : ∀ {other : ThreadId}, w.scheduler.owner.getD other = other → other = thread := by
    intro other h
    rw [ho] at h
    exact h.symm
  cases h with
  | register h => rwa [(Scheduler.sameTime_register h).owner]
  | cancel _ => rwa [(Scheduler.sameTime_cancel _ _ w.scheduler).owner]
  | cancelAll device => rwa [(Scheduler.sameTime_cancelAll device w.scheduler).owner]
  | bury device => rwa [(World.bury_sameTime device w).owner]
  | wake h _ | skip h _ =>
    obtain ⟨rest, -, -, -, rfl⟩ := Scheduler.takeDue_eq_some.mp h
    exact ho
  | setCurrentTime other time =>
    rcases Scheduler.setCurrentTime_after other time w.scheduler with h | ⟨hb, h | ⟨-, h⟩⟩
    · rwa [h]
    all_goals
      rw [h]
      exact congrArg some (hbound hb)
  | idle other _ =>
    rcases Scheduler.idle_after other _ w.scheduler with h | ⟨hb, h | h⟩
    · rwa [h]
    all_goals
      rw [h]
      exact congrArg some (hbound hb)
  | enter other limit =>
    rcases Scheduler.enter_after other limit w.scheduler with h | ⟨hb, h | h⟩
    · rwa [h]
    all_goals
      rw [h]
      exact congrArg some (hbound hb)
  | reach _ _ | leave | live _ | work _ | ask _ _ _ => exact ho

namespace World

variable {wake : Wake σ} {react : Reaction σ} {steps : Nat} {thread : ThreadId}
  {a b limit : Instant}

/-- A world whose time has moved on to a limit. -/
def reached (limit : Instant) (w : World σ) : World σ :=
  { w with scheduler := w.scheduler.reach limit }

/-- More steps than are needed do no harm. -/
theorem dispatch_mono {steps' : Nat} (h : dispatch wake limit steps w = .ok () v)
    (hle : steps ≤ steps') : dispatch wake limit steps' w = .ok () v := by
  induction steps generalizing w steps' with
  | zero => cases h
  | succ steps ih =>
    obtain ⟨n, rfl⟩ : ∃ n, steps' = n + 1 := ⟨steps' - 1, by omega⟩
    rcases dispatch_succ wake limit steps w with
      ⟨hn, he⟩ | ⟨p, time, scheduler, u, hd, hp, he⟩ | ⟨_, _, _, _, _, -, -, he⟩
    · rw [dispatch_of_none hn]
      rwa [he] at h
    · rw [he] at h
      rw [dispatch_of_ok hd hp]
      exact ih h (by omega)
    · rw [he] at h
      cases h

/-- Delivery up to a limit first does all that is due up to an earlier one. -/
theorem dispatch_split (hab : a ≤ b) (h : dispatch wake b steps w = .ok () v) :
    ∃ u, dispatch wake a steps w = .ok () u ∧ dispatch wake b steps u = .ok () v := by
  induction steps generalizing w with
  | zero => cases h
  | succ steps ih =>
    rcases dispatch_succ wake b steps w with
      ⟨hn, -⟩ | ⟨p, time, scheduler, w', hd, hp, he⟩ | ⟨_, _, _, _, _, -, -, he⟩
    · exact ⟨w, dispatch_of_none (Scheduler.takeDue_none_of_le hab hn), h⟩
    · by_cases hpa : p.time ≤ a
      · rw [he] at h
        obtain ⟨u, hfirst, hsecond⟩ := ih h
        rw [← dispatch_of_ok (Scheduler.takeDue_of_le hd hpa) hp] at hfirst
        exact ⟨u, hfirst, dispatch_mono hsecond (Nat.le_succ steps)⟩
      · have hn : w.scheduler.takeDue a = (none, w.scheduler) := by
          apply Scheduler.takeDue_of_none
          intro q hq
          obtain ⟨rest, hrest, -⟩ := Scheduler.takeDue_eq_some.mp hd
          exact Instant.lt_of_lt_of_le (Instant.not_le.mp hpa) (Scheduler.head_le hrest q hq)
        exact ⟨w, dispatch_of_none (by rw [hn]), h⟩
    · rw [he] at h
      cases h

/-- Nothing due later is delivered otherwise because time has moved on in between. -/
theorem dispatch_reached (ht : w.scheduler.currentTime ≠ .asap) (ha : a ≠ .asap) (hab : a ≤ b)
    (hn : (w.scheduler.takeDue a).1 = none) (h : dispatch wake b steps w = .ok () v) :
    ∃ v', dispatch wake b steps (w.reached a) = .ok () v' ∧ v'.reached b = v.reached b := by
  cases steps with
  | zero => cases h
  | succ steps =>
    rcases dispatch_succ wake b steps w with
      ⟨hnb, he⟩ | ⟨p, time, scheduler, w', hd, hp, he⟩ | ⟨_, _, _, _, _, -, -, he⟩
    · have hlt := Scheduler.lt_of_takeDue_none hnb
      have hnb' : ((w.reached a).scheduler.takeDue b).1 = none :=
        congrArg Prod.fst (Scheduler.takeDue_of_none (s := (w.reached a).scheduler) hlt)
      rw [he] at h
      cases h
      refine ⟨w.reached a, dispatch_of_none hnb', ?_⟩
      rw [reached, reached, reached, ← Scheduler.reach_reach ht ha hab]
    · have hd' : (w.reached a).scheduler.takeDue b = (some (p, time), scheduler) :=
        Scheduler.takeDue_reach ht ha hn hd
      rw [he] at h
      exact ⟨v, (dispatch_of_ok hd' hp).trans h, rfl⟩
    · rw [he] at h
      cases h

theorem schedule_eq_scheduleDue (hs : w.scheduler.Sound) :
    schedule wake (steps + 1) thread limit w = scheduleDue wake (steps + 1) thread limit w := by
  cases hi : w.scheduler.isIdleUntil limit with
  | false => exact schedule_of_due hi
  | true =>
    have hl := Scheduler.ne_asap_of_isIdleUntil hi
    rw [schedule_of_idle hi]
    by_cases ho : w.scheduler.owner.getD thread = thread
    · cases hd : w.scheduler.dispatching with
      | true =>
        rw [onScheduler_of_error (Scheduler.idle_of_dispatching ho hd),
          scheduleDue_of_refused (onScheduler_of_error (Scheduler.enter_of_dispatching ho hl hd)),
          Scheduler.enteredBy, ← hd]
        rfl
      | false =>
        have hdispatch : dispatch wake limit (steps + 1)
            { w with scheduler := w.scheduler.enteredBy thread } =
              .ok () { w with scheduler := w.scheduler.enteredBy thread } := by
          apply dispatch_of_none
          rw [hs.takeDue_of_isIdleUntil hi thread]
        have hdue := scheduleDue_eq_ok.mpr ⟨_, _, Scheduler.enter_of_ok ho hl hd, hdispatch, rfl⟩
        rw [onScheduler_of_ok (Scheduler.idle_of_ok ho hd), hdue, Scheduler.leave, ← hd]
        rfl
    · rw [onScheduler_of_error (Scheduler.idle_of_foreign ho),
        scheduleDue_of_refused (onScheduler_of_error (Scheduler.enter_of_foreign ho))]

theorem dispatch_preserves {I : World σ → Prop} (hstep : ∀ {w e v}, Step w e v → I w → I v)
    (h : dispatch react.wake limit steps w = .ok () v) (hw : I w) : I v := by
  have path : Path w (dispatchHistory react.wake (fun device time tag => (react device time tag).history)
      limit steps w) ((dispatch react.wake limit steps).after w) :=
    dispatchHistory_path (fun device time tag => (react device time tag).path) w
  rw [Run.after_of_ok h] at path
  exact path.preserves hstep hw

theorem owner_of_dispatch (h : dispatch react.wake limit steps
    { w with scheduler := w.scheduler.enteredBy thread } = .ok () u) :
    u.scheduler.owner = some thread :=
  dispatch_preserves (fun step => step.owned) h rfl

theorem entered_again (h : dispatch react.wake limit steps
    { w with scheduler := w.scheduler.enteredBy thread } = .ok () u) :
    ((u.scheduler.reach limit).leave).enteredBy thread = u.scheduler.reach limit := by
  have hmark : u.scheduler.dispatching = true := by
    have hkeeps := KeepsMark.dispatch (fun device time tag => (react device time tag).keepsMark)
      limit steps { w with scheduler := w.scheduler.enteredBy thread }
    have hafter : (dispatch react.wake limit steps).after
      { w with scheduler := w.scheduler.enteredBy thread } = u := Run.after_of_ok h
    rw [← hafter]
    exact hkeeps
  rw [Scheduler.enteredBy, Scheduler.ownedBy, Scheduler.leave, Scheduler.reach,
    ← owner_of_dispatch h, ← hmark]

private theorem schedule_sliced_succ (hs : w.scheduler.Sound) (ht : w.scheduler.currentTime ≠ .asap)
    (ha : a ≠ .asap) (hab : a ≤ b)
    (h : schedule react.wake (steps + 1) thread b w = .ok () v) :
    ∃ u, schedule react.wake (steps + 1) thread a w = .ok () u ∧
      schedule react.wake (steps + 1) thread b u = .ok () v := by
  rw [schedule_eq_scheduleDue hs] at h
  obtain ⟨s, ub, henter, hdispatch, rfl⟩ := scheduleDue_eq_ok.mp h
  obtain ⟨ho, hb, hd, rfl⟩ := Scheduler.enter_eq_ok.mp henter
  obtain ⟨u, hfirst, hsecond⟩ := dispatch_split hab hdispatch
  have hn := takeDue_of_dispatch hfirst
  have ha' : scheduleDue react.wake (steps + 1) thread a w =
      .ok () { u with scheduler := (u.scheduler.reach a).leave } :=
    scheduleDue_eq_ok.mpr ⟨_, u, Scheduler.enter_eq_ok.mpr ⟨ho, ha, hd, rfl⟩, hfirst, rfl⟩
  rw [← schedule_eq_scheduleDue hs] at ha'
  refine ⟨_, ha', ?_⟩
  have hsu : u.scheduler.Sound :=
    dispatch_preserves (fun step => step.sound) hfirst
      ((Scheduler.samePending_enteredBy thread _).sound hs)
  have htu : u.scheduler.currentTime ≠ .asap :=
    dispatch_preserves (fun step => step.timed) hfirst ht
  have hsl : ((u.scheduler.reach a).leave).Sound :=
    (Scheduler.samePending_leave _).sound ((Scheduler.samePending_reach a _).sound hsu)
  have hback := entered_again hfirst
  obtain ⟨v', hlast, heq⟩ := dispatch_reached htu ha hab hn hsecond
  rw [schedule_eq_scheduleDue hsl]
  refine scheduleDue_eq_ok.mpr ⟨_, v', Scheduler.enter_eq_ok.mpr ⟨?_, hb, rfl, rfl⟩, ?_, ?_⟩
  · show u.scheduler.owner.getD thread = thread
    rw [owner_of_dispatch hfirst]
    rfl
  · rw [hback]
    exact hlast
  · have hreach := congrArg (fun w => { w with scheduler := w.scheduler.leave }) heq
    exact hreach.symm

/-- A call that comes to its end may stop on the way. -/
theorem schedule_sliced (hs : w.scheduler.Sound) (ht : w.scheduler.currentTime ≠ .asap)
    (ha : a ≠ .asap) (hab : a ≤ b) (h : schedule react.wake steps thread b w = .ok () v) :
    ∃ u, schedule react.wake steps thread a w = .ok () u ∧
      schedule react.wake steps thread b u = .ok () v := by
  cases steps with
  | succ steps => exact schedule_sliced_succ hs ht ha hab h
  | zero =>
    -- without any steps only the quick way is open, which does not count them
    cases hb : w.scheduler.isIdleUntil b with
    | false =>
      rw [schedule_of_due hb] at h
      obtain ⟨s, u, -, hdispatch, -⟩ := scheduleDue_eq_ok.mp h
      cases hdispatch
    | true =>
      have hia := Scheduler.isIdleUntil_of_le ha hab hb
      have h₁ : schedule react.wake 1 thread b w = .ok () v := by
        rw [schedule_of_idle hb] at h ⊢
        exact h
      obtain ⟨u, hu, hv⟩ := schedule_sliced_succ hs ht ha hab h₁
      rw [schedule_of_idle hia] at hu
      have hub : u.scheduler.isIdleUntil b = true := by
        rw [← Run.after_of_ok hu, after_onScheduler]
        exact ((Scheduler.samePending_idle thread a _).isIdleUntil b).trans hb
      rw [schedule_of_idle hub] at hv
      refine ⟨u, ?_, ?_⟩
      · rw [schedule_of_idle hia, hu]
      · rw [schedule_of_idle hub, hv]

end World

/-- Moves time to one limit and then to another. -/
def Program.inTwoSlices (react : Reaction σ) (steps : Nat) (thread : ThreadId) (a b : Instant) :
    Program σ Unit :=
  .andThen (.schedule react steps thread a) fun _ => .schedule react steps thread b

theorem Program.inTwoSlices_of_ok {react : Reaction σ} {steps : Nat} {thread : ThreadId}
    {a b : Instant} (hs : w.scheduler.Sound) (ht : w.scheduler.currentTime ≠ .asap)
    (ha : a ≠ .asap) (hab : a ≤ b)
    (h : (Program.schedule react steps thread b).run w = .ok () v) :
    (inTwoSlices react steps thread a b).run w = .ok () v := by
  obtain ⟨u, hfirst, hsecond⟩ := World.schedule_sliced hs ht ha hab h
  exact Run.bind_eq_ok.mpr ⟨(), u, hfirst, hsecond⟩

/-- If time can be moved to a limit at once, it can be moved there with a stop on the way: the same
devices are woken at the same instants for the same reasons, and the world ends up the same. -/
theorem slices_make_no_difference {t : Instant} (h₀ : w₀.scheduler = Scheduler.start t)
    (ht : t.isFinite = true) (p : Program σ α) (hw : w ∈ p.worlds w₀) (react : Reaction σ)
    (steps : Nat) (thread : ThreadId) {a b : Instant} (ha : a ≠ .asap) (hab : a ≤ b)
    (h : (Program.schedule react steps thread b).run w = .ok () v) :
    (Program.inTwoSlices react steps thread a b).run w = .ok () v ∧
    calls ((Program.inTwoSlices react steps thread a b).history w) =
      calls ((Program.schedule react steps thread b).history w) ∧
    (Program.inTwoSlices react steps thread a b).recorded.run (w.record []) =
      (Program.schedule react steps thread b).recorded.run (w.record []) := by
  have hs := Program.worlds_sound h₀ hw
  have htw := Program.worlds_timed h₀ (Instant.ne_asap_of_isFinite ht) hw
  have hsliced := Program.inTwoSlices_of_ok hs htw ha hab h
  have hnoted := (Program.schedule react steps thread b).recorded_follows w []
  rw [h] at hnoted
  have hnotedSliced := (Program.inTwoSlices react steps thread a b).recorded_follows w []
  rw [hsliced] at hnotedSliced
  -- the world with notes is one more world to which the first part applies
  have hsame : (Program.inTwoSlices react steps thread a b).recorded.run (w.record []) =
      .ok () (v.record ([] ++ calls ((Program.schedule react steps thread b).history w))) :=
    Program.inTwoSlices_of_ok hs htw ha hab hnoted
  refine ⟨hsliced, ?_, hsame.trans hnoted.symm⟩
  rw [hnotedSliced] at hsame
  injection hsame with _ hworld
  exact congrArg (fun w => w.devices.2) hworld

/-- A device with two wake-ups pending, before the first of them. -/
def twoPending : Program Unit Unit :=
  .andThen (.enroll true) fun device =>
    .andThen (.register (.wrap 5) device 0) fun _ => .register (.wrap 9) device 1

/-- The first wake-up asks for another one at once. -/
def askingAgain : Reaction Unit := fun device _ tag =>
  if tag = 0 then .register .asap device 2 else .done ()

theorem slices_make_no_difference_asking :
    calls ((Program.inTwoSlices askingAgain 4 0 (.wrap 6) (.wrap 9)).history
        (twoPending.after (.ofScheduler .new ()))) =
      [⟨0, .wrap 5, 0⟩, ⟨0, .wrap 5, 2⟩, ⟨0, .wrap 9, 1⟩] := by
  have h₀ : (World.ofScheduler .new () : World Unit).scheduler = .start .zero := rfl
  have hw := twoPending.after_mem_worlds (.ofScheduler .new ())
  have h : (Program.schedule askingAgain 4 0 (.wrap 9)).run
      (twoPending.after (.ofScheduler .new ())) =
        .ok () ((Program.schedule askingAgain 4 0 (.wrap 9)).after
          (twoPending.after (.ofScheduler .new ()))) := by rfl
  rw [(slices_make_no_difference h₀ rfl twoPending hw askingAgain 4 0 (a := .wrap 6) (by decide)
    (by decide) h).2.1]
  decide

end Timebase
