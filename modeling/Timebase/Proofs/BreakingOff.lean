import Timebase.Proofs.Completion
import Timebase.Proofs.Holds
import Timebase.Proofs.Punctuality
import Timebase.Proofs.UnderWay

/-!
# Wake-ups that break off

A wake-up that breaks off ends the delivery it belongs to, and the scheduler can be used as before:
only what the wake-up itself did remains, and a later call delivers what is still due. A call to
move time from within a wake-up is turned away without a trace.
-/

namespace Timebase

namespace Scheduler

variable {s : Scheduler} {thread : ThreadId}

/-- The next instant is that of the first sync point that is pending. -/
structure NextIsFirst (s : Scheduler) : Prop where
  of_asap : (∃ q ∈ s.queue, q.time = .asap) → s.next = s.currentTime
  of_instants : (∀ q ∈ s.queue, q.time ≠ .asap) → s.queue ≠ [] →
    ∃ q ∈ s.queue, s.next = q.time ∧ ∀ r ∈ s.queue, q.time ≤ r.time
  of_nothing : s.queue = [] → s.next = .never

theorem Sound.nextIsFirst (hs : Sound s) : NextIsFirst s :=
  ⟨hs.next_of_asap, hs.next_of_no_asap, hs.next_of_nil⟩

end Scheduler

variable {σ α : Type} {w w₀ v u x y : World σ} {e : Event} {ms : List (Moment σ)}
  {r q : SyncPoint} {time : Instant} {halt : Halt}

/-- No wake-up of a history breaks off. -/
def NoneBreaksOff (react : Reaction σ) (ms : List (Moment σ)) : Prop :=
  ∀ r time u, ⟨.woken r time, u⟩ ∈ ms →
    ∃ y, (react r.device time r.tag).run (u.retain r.device) = .ok () y

namespace World

variable {wake : Wake σ} {history : DeviceId → Instant → Tag → World σ → List (Moment σ)}
  {react : Reaction σ} {steps : Nat} {thread : ThreadId} {limit t : Instant} {p : SyncPoint}

private theorem woken_of_mem_deliverHistory
    (hquiet : ∀ device time tag v, v.scheduler.dispatching = true →
      Quiet (history device time tag v))
    (hw : w.scheduler.dispatching = true)
    (hm : ⟨.woken r time, u⟩ ∈ deliverHistory wake history p t w) :
    r = p ∧ time = t ∧ u = w ∧ w.isAlive p.device = true := by
  rw [deliverHistory] at hm
  cases ha : w.isAlive p.device with
  | true =>
    rw [if_pos ha] at hm
    rcases List.mem_cons.mp hm with h | h
    · cases h
      exact ⟨rfl, rfl, rfl, rfl⟩
    · have hvisit : Quiet (visitHistory p.device (wake p.device t p.tag)
          (history p.device t p.tag) w) :=
        visitHistory_quiet p.device (hquiet p.device t p.tag (w.retain p.device) hw)
      cases hvisit _ h
  | false =>
    rw [if_neg (by simp [ha])] at hm
    cases List.mem_singleton.mp hm

/-- A wake-up among deliveries is that of the first of them, or it comes after the first of them has
gone well. -/
private theorem woken_of_mem_dispatchHistory
    (hquiet : ∀ device time tag v, v.scheduler.dispatching = true →
      Quiet (history device time tag v))
    (hw : w.scheduler.dispatching = true)
    (hm : ⟨.woken r time, u⟩ ∈ dispatchHistory wake history limit (steps + 1) w) :
    w.scheduler.takeDue limit = (some (r, time), u.scheduler) ∧
        u = { w with scheduler := u.scheduler } ∧ u.isAlive r.device = true ∨
      ∃ p t s v, w.scheduler.takeDue limit = (some (p, t), s) ∧
        deliver wake p t { w with scheduler := s } = .ok () v ∧
        ⟨.woken r time, u⟩ ∈ dispatchHistory wake history limit steps v := by
  rcases dispatch_succ wake limit steps w with
    ⟨hn, -⟩ | ⟨p, t, s, v, hd, hp, -⟩ | ⟨p, t, s, halt, v, hd, hp, -⟩
  · rw [dispatchHistory_of_none hn] at hm
    cases hm
  all_goals
    have hmark : ({ w with scheduler := s } : World σ).scheduler.dispatching = true :=
      (Scheduler.takeDue_dispatching hd).trans hw
  · rw [dispatchHistory_of_ok hd hp] at hm
    rcases List.mem_append.mp hm with hm | hm
    · obtain ⟨rfl, rfl, rfl, ha⟩ := woken_of_mem_deliverHistory hquiet hmark hm
      exact Or.inl ⟨hd, rfl, ha⟩
    · exact Or.inr ⟨p, t, s, v, hd, hp, hm⟩
  · rw [dispatchHistory_of_error hd hp] at hm
    obtain ⟨rfl, rfl, rfl, ha⟩ := woken_of_mem_deliverHistory hquiet hmark hm
    exact Or.inl ⟨hd, rfl, ha⟩

private theorem history_quiet_of_mark (react : Reaction σ) :
    ∀ (device : DeviceId) (time : Instant) (tag : Tag) (v : World σ),
      v.scheduler.dispatching = true → Quiet ((react device time tag).history v) :=
  fun device time tag _ hv => (react device time tag).history_quiet hv

/-- If a wake-up breaks off so do the deliveries it is one of. -/
private theorem dispatch_of_broken (hw : DeliversFor thread w)
    (hm : ⟨.woken r time, u⟩ ∈ dispatchHistory react.wake
      (fun device time tag => (react device time tag).history) limit steps w) :
    DeliversFor thread u ∧ ∀ halt x,
      (react r.device time r.tag).run (u.retain r.device) = .error halt x →
        dispatch react.wake limit steps w = .error halt (x.release r.device) := by
  induction steps generalizing w with
  | zero => cases hm
  | succ steps ih =>
    rcases woken_of_mem_dispatchHistory (history_quiet_of_mark react) hw.mark hm with
      ⟨hd, hu, ha⟩ | ⟨p, t, s, v, hd, hp, hm⟩
    · refine ⟨?_, ?_⟩
      · rw [hu]
        exact hw.takeDue hd
      · intro halt x hx
        apply dispatch_of_error hd
        rw [← hu, deliver_of_alive ha]
        exact during_of_error hx
    · rw [dispatch_of_ok hd hp]
      exact ih ((hw.takeDue hd).deliver hp) hm

private theorem broken_of_deliver (h : deliver wake p t w = .error halt v) :
    w.isAlive p.device = true ∧
      ∃ x, wake p.device t p.tag (w.retain p.device) = .error halt x := by
  cases ha : w.isAlive p.device with
  | true =>
    rw [deliver_of_alive ha] at h
    cases hx : wake p.device t p.tag (w.retain p.device) with
    | ok _ x =>
      rw [during_of_ok hx] at h
      cases h
    | error halt' x =>
      rw [during_of_error hx] at h
      cases h
      exact ⟨rfl, x, rfl⟩
  | false =>
    rw [deliver_of_gone ha] at h
    cases h

private theorem broken_of_dispatch (h : dispatch react.wake limit steps w = .error halt v) :
    halt = .starved ∨ ∃ r time u x,
      ⟨.woken r time, u⟩ ∈ dispatchHistory react.wake
        (fun device time tag => (react device time tag).history) limit steps w ∧
      (react r.device time r.tag).run (u.retain r.device) = .error halt x := by
  induction steps generalizing w with
  | zero =>
    cases h
    exact Or.inl rfl
  | succ steps ih =>
    rcases dispatch_succ react.wake limit steps w with
      ⟨-, he⟩ | ⟨p, t, s, u, hd, hp, he⟩ | ⟨p, t, s, halt', u, hd, hp, he⟩
    · rw [he] at h
      cases h
    · rw [he] at h
      rcases ih h with hs | ⟨r, time, u', x, hm, hx⟩
      · exact Or.inl hs
      · refine Or.inr ⟨r, time, u', x, ?_, hx⟩
        rw [dispatchHistory_of_ok hd hp]
        exact List.mem_append_right _ hm
    · rw [he] at h
      cases h
      refine Or.inr ?_
      obtain ⟨ha, x, hx⟩ := broken_of_deliver hp
      refine ⟨p, t, _, x, ?_, hx⟩
      rw [dispatchHistory_of_error hd hp, deliverHistory, if_pos ha]
      exact List.mem_cons_self

private theorem dispatched_of_mem_scheduleHistory
    (hm : ⟨.woken r time, u⟩ ∈ (Program.schedule react steps thread limit).history w) :
    w.scheduler.isIdleUntil limit = false ∧ limit ≠ .asap ∧
      onScheduler (Scheduler.enter thread limit) w =
        .ok () { w with scheduler := w.scheduler.enteredBy thread } ∧
      ⟨.woken r time, u⟩ ∈ dispatchHistory react.wake
        (fun device time tag => (react device time tag).history) limit steps
        { w with scheduler := w.scheduler.enteredBy thread } := by
  rw [Program.history, scheduleHistory] at hm
  cases hi : w.scheduler.isIdleUntil limit with
  | true =>
    rw [if_pos hi] at hm
    cases List.mem_singleton.mp hm
  | false =>
    rw [if_neg (by simp [hi]), scheduleDueHistory] at hm
    rcases List.mem_cons.mp hm with h | hm
    · cases h
    · cases he : onScheduler (Scheduler.enter thread limit) w with
      | error halt v =>
        rw [he] at hm
        cases hm
      | ok _ v =>
        obtain ⟨s, hs, rfl⟩ := onScheduler_eq_ok.mp he
        obtain ⟨-, hl, -, rfl⟩ := Scheduler.enter_eq_ok.mp hs
        rw [he] at hm
        refine ⟨rfl, hl, rfl, ?_⟩
        rcases List.mem_append.mp hm with hm | hm
        · exact hm
        · split at hm <;> simp at hm

theorem schedule_of_broken
    (hm : ⟨.woken r time, u⟩ ∈ (Program.schedule react steps thread limit).history w)
    (hx : (react r.device time r.tag).run (u.retain r.device) = .error halt x) :
    (Program.schedule react steps thread limit).run w =
      .error halt { x.release r.device with scheduler := (x.release r.device).scheduler.leave } := by
  obtain ⟨hi, -, henter, hm⟩ := dispatched_of_mem_scheduleHistory hm
  have hw : DeliversFor thread { w with scheduler := w.scheduler.enteredBy thread } := ⟨rfl, rfl⟩
  have hdue := scheduleDue_of_halted henter ((dispatch_of_broken hw hm).2 halt x hx)
  exact (schedule_of_due hi).trans hdue

theorem deliversFor_of_woken
    (hm : ⟨.woken r time, u⟩ ∈ (Program.schedule react steps thread limit).history w) :
    DeliversFor thread u := by
  obtain ⟨-, -, -, hm⟩ := dispatched_of_mem_scheduleHistory hm
  exact (dispatch_of_broken ⟨rfl, rfl⟩ hm).1

/-- The owner is let in from outside a delivery, and comes to the end unless a wake-up breaks off. -/
theorem schedule_of_unbroken (howner : w.scheduler.owner.getD thread = thread)
    (hd : w.scheduler.dispatching = false) (hl : limit ≠ .asap)
    (hunbroken : NoneBreaksOff react ((Program.schedule react steps thread limit).history w)) :
    (∃ y, (Program.schedule react steps thread limit).run w = .error .starved y) ∨
      ∃ y, (Program.schedule react steps thread limit).run w = .ok () y := by
  cases hi : w.scheduler.isIdleUntil limit with
  | true =>
    have hidle : Scheduler.idle thread limit w.scheduler = _ := Scheduler.idle_of_ok howner hd
    exact Or.inr ⟨_, (schedule_of_idle hi).trans (onScheduler_of_ok hidle)⟩
  | false =>
    have henter := onScheduler_of_ok (Scheduler.enter_of_ok howner hl hd)
    cases hrun : dispatch react.wake limit steps
        { w with scheduler := w.scheduler.enteredBy thread } with
    | ok _ u => exact Or.inr ⟨_, (schedule_of_due hi).trans (scheduleDue_of_ok henter hrun)⟩
    | error halt u =>
      have hhalted := (schedule_of_due hi).trans (scheduleDue_of_halted henter hrun)
      rcases broken_of_dispatch hrun with rfl | ⟨r, time, u', x, hm, hx⟩
      · exact Or.inl ⟨_, hhalted⟩
      · have hmem : ⟨.woken r time, u'⟩ ∈
            (Program.schedule react steps thread limit).history w := by
          rw [Program.history, scheduleHistory, if_neg (by simp [hi]), scheduleDueHistory, henter]
          exact List.mem_cons_of_mem _ (List.mem_append_left _ hm)
        obtain ⟨y, hy⟩ := hunbroken r time u' hmem
        rw [hx] at hy
        cases hy

theorem device_of_mem_burial {device : DeviceId} (h : q ∈ w.burial device) : q.device = device := by
  rcases bury_cases device w with ⟨hb, -⟩ | ⟨hb, -⟩
  · rw [hb] at h
    cases h
  · rw [hb, List.mem_filter, beq_iff_eq] at h
    exact h.2

theorem isAlive_of_heldAlike {device : DeviceId} (h : HeldAlike w v)
    (ha : w.isAlive device = true) (ho : v.isOwned device = w.isOwned device) :
    v.isAlive device = true := by
  rw [isAlive] at ha
  cases hl : w.lifetimes[device]? with
  | none =>
    rw [hl] at ha
    cases ha
  | some l =>
    rw [hl] at ha
    obtain ⟨owned, hv, -⟩ := h device l hl
    rw [isOwned, isOwned, hl, hv] at ho
    have howned : owned = l.owned := ho
    rw [isAlive, hv, howned]
    exact ha

end World

/-- What a call to move time leaves behind when the wake-up of `r` breaks off that began at `time` in
the world `u`: the world `v`, given what happened within the wake-up. -/
structure LeftBehind (r : SyncPoint) (time : Instant) (u : World σ) (within : List (Moment σ))
    (v : World σ) : Prop where
  unmarked : v.scheduler.dispatching = false
  consumed : r ∉ v.scheduler.queue
  /-- Time stands where the wake-up began, unless the wake-up has set it. -/
  time : v.scheduler.currentTime = time ∨
    time ≤ v.scheduler.currentTime ∧ ∃ m ∈ within, m.event = .timeSet ∧
      m.world.scheduler.currentTime = v.scheduler.currentTime
  next : v.scheduler.NextIsFirst
  sorted : v.scheduler.queue.Sorted
  /-- What was pending when the wake-up began still is, with what was registered and without what was
  taken back in it. A device that is given up in its own wake-up takes the rest with it. -/
  pending : ∃ ended,
    (v.scheduler.queue ++ (gather Event.takenBack within ++ ended)).Perm
      (u.scheduler.queue ++ gather Event.entered within) ∧
    (∀ q ∈ ended, q.device = r.device ∧ v.isAlive r.device = false) ∧
    (v.isOwned r.device = u.isOwned r.device → ended = [])

theorem Step.woken_gone (h : Step w (.woken r time) v) :
    r ∉ v.scheduler.queue ∧ r.seq < v.scheduler.nextSeq := by
  have hhead : w.scheduler.queue = r :: v.scheduler.queue := h.taken_head List.mem_cons_self
  have hsorted := w.scheduler.sorted_queue
  rw [hhead] at hsorted
  refine ⟨?_, ?_⟩
  · intro hr
    exact ((List.pairwise_cons.mp hsorted).1 r hr).ne rfl
  · have hnext : v.scheduler.nextSeq = w.scheduler.nextSeq := h.numbered.1
    rw [hnext]
    apply Scheduler.seq_lt_nextSeq
    rw [hhead]
    exact List.mem_cons_self

theorem gather_append {β : Type} (f : Event → List β) (ms ns : List (Moment σ)) :
    gather f (ms ++ ns) = gather f ms ++ gather f ns := List.flatMap_append

theorem gather_taken_of_quiet (h : Quiet ms) : gather Event.taken ms = [] := by
  rw [gather, List.flatMap_eq_nil_iff]
  exact h

/-- What is pending after a wake-up is what was pending before it, with what was registered and
without what was taken back in it. -/
theorem Path.perm_of_quiet (path : Path w ms v) (h : Quiet ms) :
    (v.scheduler.queue ++ gather Event.takenBack ms).Perm
      (w.scheduler.queue ++ gather Event.entered ms) := by
  rw [List.perm_iff_count]
  intro q
  have hbalance := path.balance q
  have htaken := count_taken ms q
  rw [gather_taken_of_quiet h, List.count_nil] at htaken
  rw [List.count_append, List.count_append]
  omega

theorem Program.visit_path (p : Program σ α) (device : DeviceId) (u : World σ) :
    Path (u.retain device)
      (p.history (u.retain device) ++ (p.after (u.retain device)).loseHold device
        fun l => { l with running := l.running - 1 })
      ((p.after (u.retain device)).release device) :=
  (p.path (u.retain device)).append (World.loseHold_path device _ _)

/-- A device that was given up takes along what it still has pending when it is let go. -/
theorem Program.pending_after_visit (p : Program σ α) (device : DeviceId)
    (hd : u.scheduler.dispatching = true) :
    ∃ ended,
      (((p.after (u.retain device)).release device).scheduler.queue ++
          (gather Event.takenBack (p.history (u.retain device)) ++ ended)).Perm
        (u.scheduler.queue ++ gather Event.entered (p.history (u.retain device))) ∧
      ∀ q ∈ ended, q.device = device ∧
        ((p.after (u.retain device)).release device).isAlive device = false := by
  let y : World σ := { p.after (u.retain device) with
    lifetimes := (p.after (u.retain device)).lifetimes.modify device fun l =>
      { l with running := l.running - 1 } }
  refine ⟨y.burial device, ?_, ?_⟩
  · have hquiet := (p.history_quiet (w := u.retain device) hd).append
      (World.loseHold_quiet device (fun l => { l with running := l.running - 1 })
        (p.after (u.retain device)))
    have hperm := (p.visit_path device u).perm_of_quiet hquiet
    have hback : gather Event.takenBack ((p.after (u.retain device)).loseHold device
        fun l => { l with running := l.running - 1 }) = y.burial device := List.append_nil _
    have hentered : gather Event.entered ((p.after (u.retain device)).loseHold device
        fun l => { l with running := l.running - 1 }) = [] := rfl
    rw [gather_append, gather_append, hback, hentered, List.append_nil] at hperm
    exact hperm
  · intro q hq
    have hdevice := World.device_of_mem_burial hq
    have hdead := World.mem_burial hq
    rw [hdevice] at hdead
    exact ⟨hdevice, hdead⟩

theorem LeftBehind.of_step (step : Step w (.woken r time) u) (hs : w.scheduler.Sound)
    (hd : u.scheduler.dispatching = true) (p : Program σ α) :
    LeftBehind r time u (p.history (u.retain r.device))
      { ((p.after (u.retain r.device)).release r.device) with
        scheduler := ((p.after (u.retain r.device)).release r.device).scheduler.leave } := by
  have hu : u.scheduler.Sound := step.sound hs
  obtain ⟨hgone, hseq⟩ := step.woken_gone
  have path := p.visit_path r.device u
  have hsound : ((p.after (u.retain r.device)).release r.device).scheduler.leave.Sound :=
    (Scheduler.samePending_leave _).sound (path.preserves (fun step => step.sound) hu)
  obtain ⟨ended, hperm, hended⟩ := p.pending_after_visit r.device hd
  refine ⟨rfl, ?_, ?_, hsound.nextIsFirst, Scheduler.sorted_queue _, ended, hperm, hended, ?_⟩
  · intro hr
    exact hgone (path.mem_queue hseq hr)
  · -- letting the device go does not touch time, so it stands where the wake-up left it
    have hkept : ((p.after (u.retain r.device)).release r.device).scheduler.leave.currentTime =
        (p.after (u.retain r.device)).scheduler.currentTime :=
      (World.release_sameTime r.device _).currentTime
    have within := p.path (u.retain r.device)
    have hcases := (p.history_aside (w := u.retain r.device) hd).time
    rw [within.upTo_eq] at hcases
    have htime : time = u.scheduler.currentTime := step.woken_time.1
    rw [hkept, htime]
    exact hcases.imp id fun h => ⟨within.time_le, h⟩
  · intro howned
    have halive : u.isAlive r.device = true := step.alive.1 r time rfl
    have hheld := (p.heldAlike (u.retain r.device)).release
    have hstill := World.isAlive_of_heldAlike hheld halive howned
    rw [List.eq_nil_iff_forall_not_mem]
    intro q hq
    rw [(hended q hq).2] at hstill
    cases hstill

section

variable {react : Reaction σ} {steps : Nat} {thread : ThreadId} {limit : Instant}

theorem World.deliversRest (hs : v.scheduler.Sound) (ho : v.scheduler.owner = some thread)
    (hd : v.scheduler.dispatching = false) (hl : limit ≠ .asap)
    (h : NoneBreaksOff react ((Program.schedule react steps thread limit).history v)) :
    (∃ y, (Program.schedule react steps thread limit).run v = .error .starved y) ∨
      ∃ y, DeliversRest react steps thread limit v y := by
  have howner : v.scheduler.owner.getD thread = thread := by
    rw [ho]
    rfl
  refine (schedule_of_unbroken howner hd hl h).imp id ?_
  rintro ⟨y, hy⟩
  exact ⟨y, hy, taken_of_schedule_ok hs hy, (lt_of_schedule_ok hs hy).2⟩

/-- A call that breaks off ends in a sound world that its thread still owns. -/
theorem World.leftBehind_of_broken (hs : w.scheduler.Sound)
    (hm : ⟨.woken r time, u⟩ ∈ (Program.schedule react steps thread limit).history w)
    (hx : (react r.device time r.tag).run (u.retain r.device) = .error halt x) :
    ∃ v, (Program.schedule react steps thread limit).run w = .error halt v ∧
      LeftBehind r time u ((react r.device time r.tag).history (u.retain r.device)) v ∧
      v.scheduler.Sound ∧ v.scheduler.owner = some thread := by
  have hu : DeliversFor thread u := deliversFor_of_woken hm
  have hrun := schedule_of_broken hm hx
  have hafter : (react r.device time r.tag).after (u.retain r.device) = x :=
    Run.after_of_error hx
  -- what is left behind is read off the step with which the wake-up begins
  obtain ⟨past, future, hsplit⟩ := List.append_of_mem hm
  obtain ⟨first, second⟩ := (Program.schedule react steps thread limit).path_upTo hsplit
  cases second with
  | cons step _ =>
    have hpast : (w.upTo past).scheduler.Sound := first.preserves (fun step => step.sound) hs
    have hleft := LeftBehind.of_step step hpast hu.mark (react r.device time r.tag)
    have howner : x.scheduler.owner = some thread := by
      rw [← hafter]
      exact ((hu.retain r.device).after (react r.device time r.tag)).owner
    rw [hafter] at hleft
    refine ⟨_, hrun, hleft, ?_, (release_sameTime r.device x).owner.trans howner⟩
    have hend := ((Program.schedule react steps thread limit).path w).preserves
      (fun step => step.sound) hs
    have hbroken : (Program.schedule react steps thread limit).after w = _ :=
      Run.after_of_error hrun
    rwa [hbroken] at hend

end

/-- A wake-up that breaks off ends the call that it belongs to and leaves only its own traces; a
later call delivers what is still due. A call from within a wake-up is turned away, however often
it is tried, and the delivery goes on as if it had not been made. -/
theorem delivery_outlives_a_break {t : Instant} (h₀ : w₀.scheduler = Scheduler.start t)
    (p : Program σ α) (hw : w ∈ p.worlds w₀) (react : Reaction σ) (steps : Nat) (thread : ThreadId)
    (limit : Instant) :
    let call := Program.schedule react steps thread limit
    (∀ r time u, ⟨.woken r time, u⟩ ∈ call.history w →
      let wakeUp := react r.device time r.tag
      (∀ halt x, wakeUp.run (u.retain r.device) = .error halt x →
        ∃ v, call.run w = .error halt v ∧
          LeftBehind r time u (wakeUp.history (u.retain r.device)) v ∧
          ∀ react' steps' limit', limit' ≠ .asap →
            NoneBreaksOff react' ((Program.schedule react' steps' thread limit').history v) →
              (∃ y, (Program.schedule react' steps' thread limit').run v = .error .starved y) ∨
                ∃ y, DeliversRest react' steps' thread limit' v y) ∧
      ∀ y ∈ wakeUp.worlds (u.retain r.device), y.scheduler.dispatching = true ∧
        ∀ react' steps' other limit', ∃ cause,
          (Program.attempt (.schedule react' steps' other limit')).run y =
              .ok (.error (.violated cause)) y ∧
            (other = thread → limit' ≠ .asap → cause = .reentered)) ∧
    ∀ react' steps' other limit',
      (Program.schedule
        (fun device time tag => .andThen (.attempt (.schedule react' steps' other limit'))
          fun _ => react device time tag)
        steps thread limit).run w = call.run w := by
  intro call
  refine ⟨?_, ?_⟩
  · intro r time u hm wakeUp
    have hu : World.DeliversFor thread u := World.deliversFor_of_woken hm
    refine ⟨?_, ?_⟩
    · intro halt x hx
      have hs := Program.worlds_sound h₀ hw
      obtain ⟨v, hrun, hleft, hsound, howner⟩ := World.leftBehind_of_broken hs hm hx
      refine ⟨v, hrun, hleft, ?_⟩
      intro react' steps' limit' hl hnone
      exact World.deliversRest hsound howner hleft.unmarked hl hnone
    · intro y hy
      have hdelivers := (hu.retain r.device).worlds hy
      exact ⟨hdelivers.mark, hdelivers.attempt⟩
  · intro react' steps' other limit'
    apply World.schedule_congr
    intro device time tag u hu
    obtain ⟨cause, hattempt, -⟩ := hu.attempt react' steps' other limit'
    exact Run.bind_of_ok hattempt

/-- The world in which the first of two wake-ups begins, which is going to break off. -/
def beforeTheBreak : World Unit :=
  let w := twoPending.after (.ofScheduler .new ())
  w.upTo (((Program.schedule breakingOff 3 0 (.wrap 9)).history w).take 2)

theorem delivery_outlives_a_break_once :
    ∃ v y, (Program.schedule breakingOff 3 0 (.wrap 9)).run
        (twoPending.after (.ofScheduler .new ())) =
          .error (.fault (.violated .deviceFailure)) v ∧
      v.scheduler.currentTime = .wrap 5 ∧
      v.scheduler.queue = [⟨.asap, 0, 0, 2⟩, ⟨.wrap 9, 0, 1, 1⟩] ∧
      DeliversRest (fun _ _ _ => .done ()) 3 0 (.wrap 9) v y := by
  have h₀ : (World.ofScheduler .new () : World Unit).scheduler = .start .zero := rfl
  have hw := twoPending.after_mem_worlds (.ofScheduler .new ())
  have h := (delivery_outlives_a_break h₀ twoPending hw breakingOff 3 0 (.wrap 9)).1
    ⟨.wrap 5, 0, 0, 0⟩ (.wrap 5) beforeTheBreak (List.mem_of_getElem? (i := 1) rfl)
  obtain ⟨v, hv, -, hnext⟩ := h.1 _ _ rfl
  have hdone := hnext (fun _ _ _ => .done ()) 3 (.wrap 9) (by decide) fun _ _ u _ => ⟨_, rfl⟩
  have hend := Run.after_of_error hv
  have hrun : (Program.schedule (fun _ _ _ => .done ()) 3 0 (.wrap 9)).run v =
      .ok () ((Program.schedule (fun _ _ _ => .done ()) 3 0 (.wrap 9)).after v) := by
    rw [← hend]
    rfl
  rcases hdone with ⟨y, hy⟩ | ⟨y, hy⟩
  · rw [hrun] at hy
    cases hy
  · refine ⟨v, y, hv, ?_, ?_, hy⟩
    all_goals
      rw [← hend]
      decide

end Timebase
