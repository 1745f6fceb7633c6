import Timebase.Proofs.Conservation
import Timebase.Proofs.Slicing

/-!
# Time and punctuality

Time only moves forward, and a device is woken at the time that it then is. As long as nobody sets
the time by hand it never moves past what is pending, so whatever has an instant of its own is
delivered at that instant.
-/

namespace Timebase

namespace Scheduler

variable {s s' : Scheduler} {thread : ThreadId} {t limit time : Instant} {device : DeviceId}
  {tag : Tag} {p : SyncPoint}

theorem le_deliveryTime (p : SyncPoint) (s : Scheduler) : s.currentTime ≤ s.deliveryTime p := by
  by_cases hp : p.time = .asap
  · rw [deliveryTime, hp, Instant.isAsap_asap, if_pos rfl]
    exact Instant.le_refl _
  · rw [Instant.le_iff_key, key_deliveryTime hp]
    omega

theorem deliveryTime_of_asap (hp : p.time = .asap) : s.deliveryTime p = s.currentTime := by
  rw [deliveryTime, hp, Instant.isAsap_asap, if_pos rfl]

theorem deliveryTime_of_le (hp : p.time ≠ .asap) (h : s.currentTime ≤ p.time) :
    s.deliveryTime p = p.time := by
  apply Instant.key_injective
  rw [key_deliveryTime hp]
  rw [Instant.le_iff_key] at h
  omega

theorem deliveryTime_cases (hp : p.time ≠ .asap) :
    p.time ≤ s.deliveryTime p ∧ s.currentTime ≤ s.deliveryTime p ∧
      (s.deliveryTime p = p.time ∨ s.deliveryTime p = s.currentTime) := by
  have hkey := key_deliveryTime (s := s) hp
  refine ⟨?_, le_deliveryTime p s, ?_⟩
  · rw [Instant.le_iff_key]
    omega
  · rcases Nat.le_total s.currentTime.key p.time.key with h | h
    · exact Or.inl (Instant.key_injective (by omega))
    · exact Or.inr (Instant.key_injective (by omega))

theorem time_le_deliveryTime (p : SyncPoint) (s : Scheduler) : p.time ≤ s.deliveryTime p := by
  by_cases hp : p.time = .asap
  · rw [hp]
    exact Instant.asap_le
  · exact (deliveryTime_cases hp).1

theorem deliveryTime_le (hdue : p.time ≤ limit) (hle : s.currentTime ≤ limit) :
    s.deliveryTime p ≤ limit := by
  by_cases hp : p.time = .asap
  · rw [deliveryTime_of_asap hp]
    exact hle
  · rcases (deliveryTime_cases hp).2.2 with h | h
    · rw [h]
      exact hdue
    · rw [h]
      exact hle

theorem le_setCurrentTime (thread : ThreadId) (t : Instant) (s : Scheduler) :
    s.currentTime ≤ ((setCurrentTime thread t).after s).currentTime := by
  by_cases ho : s.owner.getD thread = thread
  · by_cases hb : t = .asap ∨ t < s.currentTime
    · rw [Run.after_of_error (setCurrentTime_of_back ho hb)]
      exact Instant.le_refl _
    · have ht : t ≠ .asap := fun h => hb (Or.inl h)
      have hle : s.currentTime ≤ t := Instant.not_lt.mp fun h => hb (Or.inr h)
      rw [Run.after_of_ok (setCurrentTime_of_ok ho ht hle)]
      exact hle
  · rw [Run.after_of_error (setCurrentTime_of_foreign ho)]
    exact Instant.le_refl _

/-- Nothing with an instant of its own is late. -/
def OnTime (s : Scheduler) : Prop := ∀ p ∈ s.queue, p.time ≠ .asap → s.currentTime ≤ p.time

theorem OnTime.start (t : Instant) : OnTime (start t) := fun _ h => (by cases h)

theorem OnTime.subset (h : OnTime s) (ht : s'.currentTime = s.currentTime)
    (hq : s'.queue ⊆ s.queue) : OnTime s' := by
  intro p hp hne
  rw [ht]
  exact h p (hq hp) hne

theorem OnTime.register (h : OnTime s) (hr : s.register time device tag = .ok s') : OnTime s' := by
  intro p hp hne
  rw [(sameTime_register hr).currentTime]
  rcases (mem_queue_register hr).mp hp with rfl | hp
  · exact (register_eq_ok.mp hr).1.resolve_left hne
  · exact h p hp hne

/-- What is taken is first, so time moves to no instant beyond the rest. -/
theorem OnTime.takeDue (h : OnTime s) (hd : s.takeDue limit = (some (p, t), s')) :
    OnTime s' := by
  obtain ⟨rest, hq, -, -, hs⟩ := takeDue_eq_some.mp hd
  intro q hqr hne
  have hmem := queue_takeDue_subset hd hqr
  have hpq : p.time ≤ q.time := head_le hq q hmem
  have hnow := h q hmem hne
  rw [hs]
  show s.deliveryTime p ≤ q.time
  by_cases hp : p.time = .asap
  · rw [deliveryTime_of_asap hp]
    exact hnow
  · rw [Instant.le_iff_key, key_deliveryTime hp]
    rw [Instant.le_iff_key] at hpq hnow
    omega

theorem OnTime.reach (h : OnTime s) (ht : s.currentTime ≠ .asap) (hl : limit ≠ .asap)
    (hlt : ∀ p ∈ s.queue, limit < p.time) : OnTime (s.reach limit) := by
  intro p hp hne
  have hnow := h p hp hne
  have hlimit := hlt p hp
  show s.currentTime.later limit ≤ p.time
  rw [Instant.le_iff_key, Instant.key_later ht hl]
  rw [Instant.le_iff_key] at hnow
  rw [Instant.lt_iff_key] at hlimit
  omega

end Scheduler

variable {σ α : Type} {w w₀ v : World σ} {e : Event} {ms : List (Moment σ)} {r : SyncPoint}
  {time : Instant}

theorem Step.time_le (h : Step w e v) : w.scheduler.currentTime ≤ v.scheduler.currentTime := by
  cases h with
  | register h =>
    rw [(Scheduler.sameTime_register h).currentTime]
    exact Instant.le_refl _
  | cancel _ =>
    rw [(Scheduler.sameTime_cancel _ _ w.scheduler).currentTime]
    exact Instant.le_refl _
  | cancelAll device =>
    rw [(Scheduler.sameTime_cancelAll device w.scheduler).currentTime]
    exact Instant.le_refl _
  | bury device =>
    rw [(World.bury_sameTime device w).currentTime]
    exact Instant.le_refl _
  | wake h _ | skip h _ =>
    obtain ⟨rest, -, -, -, rfl⟩ := Scheduler.takeDue_eq_some.mp h
    exact Scheduler.le_deliveryTime _ w.scheduler
  | setCurrentTime thread time => exact Scheduler.le_setCurrentTime thread time w.scheduler
  | idle thread hidle =>
    rcases Scheduler.idle_after thread _ w.scheduler with h | ⟨-, h | h⟩
    · rw [h]
      exact Instant.le_refl _
    · rw [h]
      exact Instant.le_refl _
    · rw [h]
      exact Instant.le_later (Scheduler.ne_asap_of_isIdleUntil hidle)
  | enter thread limit =>
    rcases Scheduler.enter_after thread limit w.scheduler with h | ⟨-, h | h⟩
    all_goals
      rw [h]
      exact Instant.le_refl _
  | reach hlimit _ => exact Instant.le_later hlimit
  | leave | live _ | work _ | ask _ _ _ => exact Instant.le_refl _

theorem Step.woken_time (h : Step w (.woken r time) v) :
    time = v.scheduler.currentTime ∧ time = w.scheduler.deliveryTime r := by
  cases h with
  | wake h _ =>
    obtain ⟨rest, -, -, rfl, rfl⟩ := Scheduler.takeDue_eq_some.mp h
    exact ⟨rfl, rfl⟩

theorem Step.mem_queue_of_woken (h : Step w (.woken r time) v) : r ∈ w.scheduler.queue := by
  cases h with
  | wake h _ =>
    exact Scheduler.mem_of_takeDue h

/-- Unless the time is set by hand nothing becomes late. -/
theorem Step.onTime (h : Step w e v) (he : e ≠ .timeSet) (hs : w.scheduler.Sound)
    (ht : w.scheduler.currentTime ≠ .asap) (hw : w.scheduler.OnTime) : v.scheduler.OnTime := by
  cases h with
  | register h => exact hw.register h
  | @cancel device tag p h =>
    have hsame := Scheduler.sameTime_cancel device tag w.scheduler
    apply hw.subset hsame.currentTime
    exact (Scheduler.queue_cancel_sublist device tag w.scheduler).subset
  | cancelAll device =>
    apply hw.subset (Scheduler.sameTime_cancelAll device w.scheduler).currentTime
    rw [Scheduler.queue_cancelAll]
    exact List.filter_sublist.subset
  | bury device =>
    apply hw.subset (World.bury_sameTime device w).currentTime
    rcases World.bury_cases device w with ⟨-, h⟩ | ⟨-, h⟩
    · rw [h]
      exact List.Subset.refl _
    · rw [h, Scheduler.queue_cancelAll]
      exact List.filter_sublist.subset
  | wake h _ | skip h _ => exact hw.takeDue h
  | setCurrentTime thread time => exact absurd rfl he
  | idle thread hidle =>
    obtain ⟨hl, hlt⟩ := hs.lt_of_isIdleUntil hidle
    rcases Scheduler.idle_after thread _ w.scheduler with h | ⟨-, h | h⟩
    · rw [h]
      exact hw
    · rw [h]
      exact hw
    · rw [h]
      have howned : (w.scheduler.ownedBy thread).OnTime := hw
      exact howned.reach ht hl hlt
  | enter thread limit =>
    rcases Scheduler.enter_after thread limit w.scheduler with h | ⟨-, h | h⟩
    all_goals
      rw [h]
      exact hw
  | reach hlimit hn => exact hw.reach ht hlimit (Scheduler.lt_of_takeDue_none hn)
  | leave | live _ | work _ | ask _ _ _ => exact hw

namespace Event

theorem eq_registered (h : r ∈ e.entered) : e = .registered r := by
  cases e with
  | registered p => rw [List.mem_singleton.mp h]
  | _ => cases h

end Event

namespace Path

/-- What is delivered in a run that begins with nothing pending was registered in it. -/
theorem registered_of_woken (path : Path w ms v) (hq : w.scheduler.queue = []) {m : Moment σ}
    (hm : m ∈ ms) (he : m.event = .woken r time) : ∃ n ∈ ms, n.event = .registered r := by
  have hdelivered : r ∈ gather Event.delivered ms := by
    apply List.mem_flatMap.mpr
    refine ⟨m, hm, ?_⟩
    rw [he]
    exact List.mem_cons_self
  have hone := path.one_place hq r
  have hpos := List.count_pos_iff.mpr hdelivered
  split at hone
  · rename_i hentered
    obtain ⟨n, hn, hr⟩ := List.mem_flatMap.mp hentered
    exact ⟨n, hn, Event.eq_registered hr⟩
  · omega

theorem time_le (path : Path w ms v) : w.scheduler.currentTime ≤ v.scheduler.currentTime := by
  apply path.preserves (I := fun u => w.scheduler.currentTime ≤ u.scheduler.currentTime)
  · intro u e u' step h
    exact Instant.le_trans h step.time_le
  · exact Instant.le_refl _

theorem times_sorted (path : Path w ms v) : (w :: ms.map Moment.world).Pairwise
    fun u u' => u.scheduler.currentTime ≤ u'.scheduler.currentTime := by
  induction path with
  | nil w => exact List.pairwise_singleton _ w
  | @cons w v m ms step rest ih =>
    apply List.pairwise_cons.mpr
    refine ⟨?_, ih⟩
    intro u hu
    have hlater : m.world.scheduler.currentTime ≤ u.scheduler.currentTime := by
      rcases List.mem_cons.mp hu with rfl | hu
      · exact Instant.le_refl _
      · exact (List.pairwise_cons.mp ih).1 u hu
    exact Instant.le_trans step.time_le hlater

theorem le_call (path : Path w ms v) : ∀ c ∈ calls ms, w.scheduler.currentTime ≤ c.time := by
  induction path with
  | nil => exact List.forall_mem_nil _
  | @cons w v m ms step _ ih =>
    intro c hc
    rcases List.mem_append.mp hc with hc | hc
    · change c ∈ m.event.calls at hc
      cases he : m.event with
      | woken r time =>
        rw [he] at step hc
        rw [List.mem_singleton.mp hc, step.woken_time.1]
        exact step.time_le
      | _ =>
        rw [he] at hc
        cases hc
    · exact Instant.le_trans step.time_le (ih c hc)

theorem calls_sorted (path : Path w ms v) :
    (calls ms).Pairwise fun c d => c.time ≤ d.time := by
  induction path with
  | nil => exact List.Pairwise.nil
  | @cons w v m ms step rest ih =>
    have hcalls : calls (m :: ms) = m.event.calls ++ calls ms := rfl
    rw [hcalls]
    cases he : m.event with
    | woken r time =>
      rw [he] at step
      apply List.pairwise_cons.mpr
      refine ⟨?_, ih⟩
      intro d hd
      have hlater := rest.le_call d hd
      rw [← step.woken_time.1] at hlater
      exact hlater
    | _ => exact ih

theorem onTime (path : Path w ms v) (he : ∀ m ∈ ms, m.event ≠ .timeSet)
    (hs : w.scheduler.Sound) (ht : w.scheduler.currentTime ≠ .asap) (hw : w.scheduler.OnTime) :
    v.scheduler.OnTime ∧
      ∀ m ∈ ms, ∀ r time, m.event = .woken r time → r.time ≠ .asap → time = r.time := by
  induction path with
  | nil => exact ⟨hw, List.forall_mem_nil _⟩
  | @cons w v m ms step rest ih =>
    obtain ⟨hfirst, hrest⟩ := List.forall_mem_cons.mp he
    have hm := step.onTime hfirst hs ht hw
    obtain ⟨hv, hwoken⟩ := ih hrest (step.sound hs) (step.timed ht) hm
    refine ⟨hv, List.forall_mem_cons.mpr ⟨?_, hwoken⟩⟩
    intro r time her hne
    rw [her] at step
    rw [step.woken_time.2]
    exact Scheduler.deliveryTime_of_le hne (hw r step.mem_queue_of_woken hne)

end Path

/-- What every run keeps of time. -/
structure Timely (p : Program σ α) (w₀ : World σ) : Prop where
  never_back : (p.worlds w₀).Pairwise fun w v =>
    w.scheduler.currentTime ≤ v.scheduler.currentTime
  never_asap : ∀ w ∈ p.worlds w₀, w.scheduler.currentTime ≠ .asap
  /-- A wake-up is told the time that it then is: the instant asked for, or the time there was
  before if that is later. -/
  told : ∀ past m future, p.history w₀ = past ++ m :: future →
    ∀ r time, m.event = .woken r time →
      time = m.world.scheduler.currentTime ∧
      (r.time = .asap → time = (w₀.upTo past).scheduler.currentTime) ∧
      (r.time ≠ .asap → r.time ≤ time ∧ (w₀.upTo past).scheduler.currentTime ≤ time ∧
        (time = r.time ∨ time = (w₀.upTo past).scheduler.currentTime))
  /-- Devices that note each call they get note these and no others. -/
  noted : p.recorded.run (w₀.record []) = recordResult (calls (p.history w₀)) (p.run w₀)
  in_turn : (calls (p.history w₀)).Pairwise fun c d => c.time ≤ d.time
  /-- Up to the first time that the time is set by hand, nothing pending is late. -/
  pending_on_time : ∀ past future, p.history w₀ = past ++ future →
    (∀ m ∈ past, m.event ≠ .timeSet) →
      ∀ r ∈ (w₀.upTo past).scheduler.queue, r.time ≠ .asap →
        (w₀.upTo past).scheduler.currentTime ≤ r.time
  /-- And whatever was registered for an instant is delivered at that instant. -/
  delivered_on_time : ∀ past future, p.history w₀ = past ++ future →
    (∀ m ∈ past, m.event ≠ .timeSet) →
      ∀ m ∈ past, ∀ r time, m.event = .woken r time → r.time ≠ .asap →
        (∃ n ∈ past, n.event = .registered r) ∧ time = r.time

/-- In every run time moves forward only, devices are woken at the time that it is, and as long as
nobody sets the time they are woken at the very instants that were asked for. -/
theorem wake_ups_are_timely {t : Instant} (h₀ : w₀.scheduler = Scheduler.start t)
    (ht : t ≠ .asap) (p : Program σ α) : Timely p w₀ := by
  have path := p.path w₀
  have ht₀ : w₀.scheduler.currentTime ≠ .asap := by
    rw [h₀]
    exact ht
  have hs₀ : w₀.scheduler.Sound := by
    rw [h₀]
    exact .start t
  have hw₀ : w₀.scheduler.OnTime := by
    rw [h₀]
    exact .start t
  have honTime : ∀ past future, p.history w₀ = past ++ future →
      (∀ m ∈ past, m.event ≠ .timeSet) → _ := fun past future h he =>
    (p.path_upTo h).1.onTime he hs₀ ht₀ hw₀
  refine ⟨path.times_sorted, ?_, ?_, p.recorded_follows w₀ [], path.calls_sorted, ?_, ?_⟩
  · intro w hw
    exact p.worlds_preserve (fun step => step.timed) hw ht₀
  · intro past m future h r time he
    obtain ⟨-, second⟩ := p.path_upTo h
    cases second with
    | cons step _ =>
      rw [he] at step
      obtain ⟨hnow, hdelivery⟩ := step.woken_time
      refine ⟨hnow, ?_, ?_⟩
      · intro hr
        rw [hdelivery, Scheduler.deliveryTime_of_asap hr]
      · intro hr
        rw [hdelivery]
        exact Scheduler.deliveryTime_cases hr
  · intro past future h he
    exact (honTime past future h he).1
  · intro past future h he m hm r time hwoken hne
    have hnothing : w₀.scheduler.queue = [] := by
      rw [h₀]
      rfl
    exact ⟨(p.path_upTo h).1.registered_of_woken hnothing hm hwoken,
      (honTime past future h he).2 m hm r time hwoken hne⟩

/-- Two wake-ups, the first of which is late because the time was set by hand. -/
def setPastTheFirst : Program Unit Unit :=
  .andThen twoPending fun _ =>
    .andThen (.setCurrentTime 0 (.wrap 7)) fun _ => .schedule askingAgain 4 0 (.wrap 9)

theorem wake_ups_are_timely_late :
    Timely setPastTheFirst (.ofScheduler .new ()) ∧
      calls (setPastTheFirst.history (.ofScheduler .new ())) =
        [⟨0, .wrap 7, 0⟩, ⟨0, .wrap 7, 2⟩, ⟨0, .wrap 9, 1⟩] := by
  have h₀ : (World.ofScheduler .new () : World Unit).scheduler = .start .zero := rfl
  refine ⟨wake_ups_are_timely h₀ (by decide) setPastTheFirst, ?_⟩
  decide +kernel

end Timebase
