import Timebase.Proofs.Pending
import Timebase.Proofs.Recording
import Timebase.Proofs.Reentry

/-!
# What becomes of sync points

Each registration gets a number of its own and is from then on in one place only: pending, taken
back, delivered, or passed over because its device was gone. A step moves sync points from one
place to another without loss, and so does every run.
-/

namespace Timebase

namespace Scheduler

variable {s s' : Scheduler} {device : DeviceId} {tag : Tag} {p : SyncPoint}

theorem nextSeq_cancelAll (device : DeviceId) (s : Scheduler) :
    (s.cancelAll device).2.nextSeq = s.nextSeq := by
  rcases cancelAll_cases device s with h | ⟨-, h⟩
  · rw [h]
    rfl
  · rw [h]

theorem cancelAll_count (device : DeviceId) (s : Scheduler) :
    (s.cancelAll device).1 = (s.queue.filter fun p => p.device == device).length := by
  have h := (perm_of_cancelAll device s).length_eq
  rw [List.length_append, queue_cancelAll] at h
  show s.pending.size - (s.pending.removeAll fun p => p.device == device).size = _
  rw [Pending.size_eq_length, Pending.size_eq_length, Pending.queue_removeAll]
  show s.queue.length - (s.queue.filter fun p => p.device != device).length = _
  omega

end Scheduler

variable {σ α : Type} {w w₀ v : World σ} {e : Event} {ms : List (Moment σ)}

private theorem count_cons_queue (p r : SyncPoint) (queue : Queue) :
    (p :: queue).count r = queue.count r + [p].count r := by
  rw [List.count_cons, List.count_cons, List.count_nil, Nat.zero_add]

private theorem cancelAll_balance (device : DeviceId) (s : Scheduler) (r : SyncPoint) :
    (s.cancelAll device).2.queue.count r + (s.queue.filter fun p => p.device == device).count r =
      s.queue.count r := by
  have h := (s.perm_of_cancelAll device).count_eq r
  rw [List.count_append] at h
  exact h.symm

private theorem takeDue_balance {s s' : Scheduler} {limit time : Instant} {p : SyncPoint}
    (h : s.takeDue limit = (some (p, time), s')) (r : SyncPoint) :
    s'.queue.count r + [p].count r = s.queue.count r := by
  rw [Scheduler.queue_takeDue h]
  exact (count_cons_queue p r s'.queue).symm

/-- A step loses no sync point and adds none but those registered. -/
theorem Step.balance (h : Step w e v) (r : SyncPoint) :
    v.scheduler.queue.count r + e.takenBack.count r + e.delivered.count r +
        e.passedOver.count r =
      w.scheduler.queue.count r + e.entered.count r := by
  cases h with
  | register h =>
    exact ((Scheduler.perm_of_register h).count_eq r).trans (count_cons_queue _ r _)
  | cancel h =>
    have hperm := (Scheduler.perm_of_cancel h).count_eq r
    rw [count_cons_queue] at hperm
    exact hperm.symm
  | cancelAll device => exact cancelAll_balance device w.scheduler r
  | bury device =>
    rcases World.bury_cases device w with ⟨hr, h⟩ | ⟨hr, h⟩
    · rw [h, hr]
      rfl
    · rw [h, hr]
      exact cancelAll_balance device w.scheduler r
  | wake h _ => exact takeDue_balance h r
  | skip h _ => exact takeDue_balance h r
  | setCurrentTime thread time =>
    exact congrArg (List.count r) (Scheduler.samePending_setCurrentTime thread time _).queue
  | idle thread _ => exact congrArg (List.count r) (Scheduler.samePending_idle thread _ _).queue
  | enter thread limit =>
    exact congrArg (List.count r) (Scheduler.samePending_enter thread limit _).queue
  | reach _ _ => rfl
  | leave => rfl
  | live lifetimes => rfl
  | work | ask => rfl

theorem Step.numbered (h : Step w e v) :
    v.scheduler.nextSeq = w.scheduler.nextSeq + e.entered.length ∧
      e.entered.map SyncPoint.seq = List.range' w.scheduler.nextSeq e.entered.length := by
  cases h with
  | register h =>
    obtain ⟨-, rfl⟩ := Scheduler.register_eq_ok.mp h
    exact ⟨rfl, rfl⟩
  | cancel h =>
    rw [Scheduler.cancel_of_found h]
    exact ⟨rfl, rfl⟩
  | cancelAll device => exact ⟨Scheduler.nextSeq_cancelAll device w.scheduler, rfl⟩
  | bury device =>
    rcases World.bury_cases device w with ⟨-, h⟩ | ⟨-, h⟩
    · rw [h]
      exact ⟨rfl, rfl⟩
    · rw [h]
      exact ⟨Scheduler.nextSeq_cancelAll device w.scheduler, rfl⟩
  | wake h _ | skip h _ =>
    obtain ⟨rest, -, -, -, rfl⟩ := Scheduler.takeDue_eq_some.mp h
    exact ⟨rfl, rfl⟩
  | setCurrentTime thread time =>
    exact ⟨(Scheduler.samePending_setCurrentTime thread time _).nextSeq, rfl⟩
  | idle thread _ => exact ⟨(Scheduler.samePending_idle thread _ _).nextSeq, rfl⟩
  | enter thread limit => exact ⟨(Scheduler.samePending_enter thread limit _).nextSeq, rfl⟩
  | reach _ _ | leave | live _ | work _ | ask _ _ _ => exact ⟨rfl, rfl⟩

namespace Path

theorem balance (path : Path w ms v) (r : SyncPoint) :
    v.scheduler.queue.count r + (gather Event.takenBack ms).count r +
        (gather Event.delivered ms).count r + (gather Event.passedOver ms).count r =
      w.scheduler.queue.count r + (gather Event.entered ms).count r := by
  induction path with
  | nil => rfl
  | cons step _ ih =>
    have h := step.balance r
    simp only [gather, List.flatMap_cons, List.count_append] at ih ⊢
    omega

theorem numbered (path : Path w ms v) :
    v.scheduler.nextSeq = w.scheduler.nextSeq + (gather Event.entered ms).length ∧
      (gather Event.entered ms).map SyncPoint.seq =
        List.range' w.scheduler.nextSeq (gather Event.entered ms).length := by
  induction path with
  | nil => exact ⟨rfl, rfl⟩
  | @cons w v m ms step _ ih =>
    obtain ⟨hnext, hseq⟩ := step.numbered
    obtain ⟨ihnext, ihseq⟩ := ih
    have hcons : gather Event.entered (m :: ms) = m.event.entered ++ gather Event.entered ms := rfl
    rw [hcons, List.length_append, List.map_append]
    refine ⟨by omega, ?_⟩
    rw [hseq, ihseq, hnext, List.range'_append_1]

theorem entered_nodup (path : Path w ms v) : (gather Event.entered ms).Nodup := by
  have h : ((gather Event.entered ms).map SyncPoint.seq).Nodup := by
    rw [path.numbered.2]
    exact List.nodup_range'
  exact List.Pairwise.of_map SyncPoint.seq (fun p q hne hpq => hne (congrArg SyncPoint.seq hpq)) h

end Path

/-- In a run that begins with nothing pending every registration is in one place. -/
theorem Path.one_place (path : Path w ms v) (hq : w.scheduler.queue = []) (r : SyncPoint) :
    v.scheduler.queue.count r + (gather Event.takenBack ms).count r +
        (gather Event.delivered ms).count r + (gather Event.passedOver ms).count r =
      if r ∈ gather Event.entered ms then 1 else 0 := by
  have hbalance := path.balance r
  rw [hq, List.count_nil, Nat.zero_add] at hbalance
  rw [hbalance, path.entered_nodup.count]

theorem World.mem_burial {device : DeviceId} {r : SyncPoint} (h : r ∈ w.burial device) :
    (w.bury device).isAlive r.device = false := by
  have halive : (w.bury device).isAlive r.device = w.isAlive r.device := by
    rcases bury_cases device w with ⟨-, h⟩ | ⟨-, h⟩
    · rw [h]
    · rw [h]
      rfl
  rw [halive]
  rw [burial] at h
  cases hl : w.lifetimes[device]? with
  | none =>
    rw [hl] at h
    cases h
  | some l =>
    cases hgone : (!l.isAlive && l.ownsSyncPoints) with
    | false => simp [hl, hgone] at h
    | true =>
      simp only [hl, hgone, if_true, List.mem_filter, beq_iff_eq] at h
      simp only [Bool.and_eq_true, Bool.not_eq_true'] at hgone
      rw [isAlive, h.2, hl]
      exact hgone.1

theorem Step.alive (h : Step w e v) :
    (∀ r time, e = .woken r time → v.isAlive r.device = true) ∧
      (∀ r time, e = .skipped r time → v.isAlive r.device = false) ∧
      ∀ rs, e = .buried rs → ∀ r ∈ rs, v.isAlive r.device = false := by
  cases h with
  | wake _ alive =>
    refine ⟨?_, fun _ _ h => (by cases h), fun _ h => (by cases h)⟩
    rintro r time ⟨⟩
    exact alive
  | skip _ gone =>
    refine ⟨fun _ _ h => (by cases h), ?_, fun _ h => (by cases h)⟩
    rintro r time ⟨⟩
    exact gone
  | bury device =>
    refine ⟨fun _ _ h => (by cases h), fun _ _ h => (by cases h), ?_⟩
    rintro rs ⟨⟩ r hr
    exact World.mem_burial hr
  | _ => exact ⟨fun _ _ h => (by cases h), fun _ _ h => (by cases h), fun _ h => (by cases h)⟩

/-- The calls that the devices get are those for what is delivered, one for one. -/
theorem calls_delivered (ms : List (Moment σ)) :
    (calls ms).map (fun c => (c.device, c.tag)) =
      (gather Event.delivered ms).map fun r => (r.device, r.tag) := by
  induction ms with
  | nil => rfl
  | cons m ms ih =>
    have hcalls : calls (m :: ms) = m.event.calls ++ calls ms := rfl
    have hdelivered : gather Event.delivered (m :: ms) =
        m.event.delivered ++ gather Event.delivered ms := rfl
    rw [hcalls, hdelivered, List.map_append, List.map_append, ih]
    cases m.event <;> rfl

namespace World

variable {react : Reaction σ} {steps : Nat} {thread : ThreadId} {limit : Instant}

/-- Taking back by tag finds a match if there is one, and takes out one match only. -/
theorem cancel_spec (w : World σ) (device : DeviceId) (tag : Tag) :
    ∃ found v, cancel device tag w = .ok found v ∧
      (found = true ↔ ∃ r ∈ w.scheduler.queue, r.device = device ∧ r.tag = tag) ∧
      (found = true → ∃ r, r.device = device ∧ r.tag = tag ∧
        w.scheduler.queue.Perm (r :: v.scheduler.queue)) ∧
      (found = false → v = w) := by
  refine ⟨_, _, cancel_apply device tag w, ?_⟩
  cases hf : w.scheduler.find? device tag with
  | some r =>
    obtain ⟨hmem, hdevice, htag⟩ := Scheduler.mem_of_find? hf
    have hperm := Scheduler.perm_of_cancel hf
    rw [Scheduler.cancel_of_found hf] at hperm ⊢
    exact ⟨⟨fun _ => ⟨r, hmem, hdevice, htag⟩, fun _ => rfl⟩,
      fun _ => ⟨r, hdevice, htag, hperm⟩, fun h => (by cases h)⟩
  | none =>
    rw [Scheduler.cancel_of_none hf]
    refine ⟨⟨fun h => (by cases h), ?_⟩, fun h => (by cases h), fun _ => rfl⟩
    rintro ⟨r, hr, hr'⟩
    exact absurd (SyncPoint.isFor_iff.mpr hr') (Scheduler.find?_eq_none.mp hf r hr)

theorem cancelAll_spec (w : World σ) (device : DeviceId) :
    ∃ v, cancelAll device w =
        .ok (w.scheduler.queue.filter fun r => r.device == device).length v ∧
      v.scheduler.queue = w.scheduler.queue.filter fun r => r.device != device := by
  refine ⟨{ w with scheduler := (w.scheduler.cancelAll device).2 }, ?_,
    w.scheduler.queue_cancelAll device⟩
  rw [cancelAll_apply, Scheduler.cancelAll_count]

theorem lt_of_schedule_ok (hs : w.scheduler.Sound)
    (h : schedule react.wake steps thread limit w = .ok () v) :
    limit ≠ .asap ∧ ∀ r ∈ v.scheduler.queue, limit < r.time := by
  cases hi : w.scheduler.isIdleUntil limit with
  | true =>
    rw [schedule_of_idle hi] at h
    have hqueue : v.scheduler.queue = w.scheduler.queue := by
      rw [← Run.after_of_ok h, after_onScheduler]
      exact (Scheduler.samePending_idle thread limit _).queue
    rw [hqueue]
    exact hs.lt_of_isIdleUntil hi
  | false =>
    rw [schedule_of_due hi] at h
    obtain ⟨s, u, he, hd, rfl⟩ := scheduleDue_eq_ok.mp h
    obtain ⟨-, hlimit, -, -⟩ := Scheduler.enter_eq_ok.mp he
    have hlt := Scheduler.lt_of_takeDue_none (takeDue_of_dispatch hd)
    exact ⟨hlimit, hlt⟩

end World

/-- What every run keeps account of. -/
structure Accounted (p : Program σ α) (w₀ : World σ) : Prop where
  distinct : (gather Event.entered (p.history w₀)).Nodup
  /-- At every moment each registration is pending, taken back, delivered or passed over. -/
  one_place : ∀ past future, p.history w₀ = past ++ future → ∀ r,
    (w₀.upTo past).scheduler.queue.count r + (gather Event.takenBack past).count r +
        (gather Event.delivered past).count r + (gather Event.passedOver past).count r =
      if r ∈ gather Event.entered past then 1 else 0
  not_delivered : ∀ r ∈ gather Event.takenBack (p.history w₀),
    r ∉ gather Event.delivered (p.history w₀)
  /-- Devices that note each call they get note these and no others. -/
  noted : p.recorded.run (w₀.record []) = recordResult (calls (p.history w₀)) (p.run w₀)
  called : (calls (p.history w₀)).map (fun c => (c.device, c.tag)) =
    (gather Event.delivered (p.history w₀)).map fun r => (r.device, r.tag)
  alive : ∀ m ∈ p.history w₀, ∀ r time, m.event = .woken r time →
    m.world.isAlive r.device = true
  gone : ∀ m ∈ p.history w₀, ∀ r time, m.event = .skipped r time →
    m.world.isAlive r.device = false
  ended : ∀ m ∈ p.history w₀, ∀ rs, m.event = .buried rs → ∀ r ∈ rs,
    m.world.isAlive r.device = false

/-- Every registration of a run is pending until it is taken back, delivered or passed over, once
and for all; and moving time to a limit delivers what is due up to there and nothing else. -/
theorem registrations_end_once {t : Instant} (h₀ : w₀.scheduler = Scheduler.start t)
    (p : Program σ α) :
    Accounted p w₀ ∧
    (∀ (w : World σ) (device : DeviceId) (tag : Tag),
      ∃ found v, World.cancel device tag w = .ok found v ∧
        (found = true ↔ ∃ r ∈ w.scheduler.queue, r.device = device ∧ r.tag = tag) ∧
        (found = true → ∃ r, r.device = device ∧ r.tag = tag ∧
          w.scheduler.queue.Perm (r :: v.scheduler.queue)) ∧
        (found = false → v = w)) ∧
    (∀ (w : World σ) (device : DeviceId),
      ∃ v, World.cancelAll device w =
          .ok (w.scheduler.queue.filter fun r => r.device == device).length v ∧
        v.scheduler.queue = w.scheduler.queue.filter fun r => r.device != device) ∧
    ∀ w ∈ p.worlds w₀, ∀ (react : Reaction σ) (steps : Nat) (thread : ThreadId) (limit : Instant),
      (∀ v, World.schedule react.wake steps thread limit w = .ok () v →
        ∀ r ∈ v.scheduler.queue, r.time ≠ .asap ∧ ¬ r.time ≤ limit) ∧
      ∀ r ∈ gather Event.delivered ((Program.schedule react steps thread limit).history w),
        ¬ limit < r.time := by
  have hqueue : w₀.scheduler.queue = [] := by rw [h₀]; rfl
  have path := p.path w₀
  have hone := path.one_place hqueue
  refine ⟨?_, World.cancel_spec, World.cancelAll_spec, ?_⟩
  · refine ⟨path.entered_nodup, ?_, ?_, p.recorded_follows w₀ [], calls_delivered _, ?_, ?_, ?_⟩
    · intro past future h
      exact (p.path_upTo h).1.one_place hqueue
    · intro r hback hdelivered
      have hr := hone r
      have hback := List.count_pos_iff.mpr hback
      have hdelivered := List.count_pos_iff.mpr hdelivered
      split at hr <;> omega
    all_goals
      intro m hm
      obtain ⟨u, step⟩ := path.step_mem hm
    · exact step.alive.1
    · exact step.alive.2.1
    · exact step.alive.2.2
  · intro w hw react steps thread limit
    refine ⟨?_, ?_⟩
    · intro v hv r hr
      have hs := Program.worlds_sound h₀ hw
      have hlt := (World.lt_of_schedule_ok hs hv).2 r hr
      exact ⟨Instant.ne_asap_of_lt hlt, Instant.not_le.mpr hlt⟩
    · intro r hr
      obtain ⟨m, hm, hr⟩ := List.mem_flatMap.mp hr
      have hdue := Program.schedule_dueUpTo react steps thread limit w m hm r
      exact Instant.not_lt.mpr (hdue (List.mem_append_left _ hr))

/-- The second wake-up of a run that breaks off is pending still and nowhere else. -/
theorem registrations_end_once_broken :
    (gather Event.takenBack (brokenRun.history (.ofScheduler .new ()))).count
        ⟨.wrap 9, 0, 1, 1⟩ = 0 ∧
      (gather Event.delivered (brokenRun.history (.ofScheduler .new ()))).count
        ⟨.wrap 9, 0, 1, 1⟩ = 0 := by
  have h₀ : (World.ofScheduler .new () : World Unit).scheduler = .start .zero := rfl
  have h := (registrations_end_once h₀ brokenRun).1.one_place _ [] (List.append_nil _).symm
  have hsecond := h ⟨.wrap 9, 0, 1, 1⟩
  have hpending : ((World.ofScheduler .new ()).upTo (brokenRun.history (.ofScheduler .new ()))
      ).scheduler.queue.count ⟨.wrap 9, 0, 1, 1⟩ = 1 := by decide
  rw [if_pos (by decide), hpending] at hsecond
  omega

end Timebase
