import Timebase.Proofs.Path

/-!
# What is pending

At every moment of every run the key kept beside what is pending is that of the first sync point to
come due. So the next instant is right, and the quick way of moving time overlooks nothing.
-/

namespace Timebase

namespace Scheduler

variable {s s' : Scheduler} {thread : ThreadId} {t limit time : Instant} {device : DeviceId}
  {tag : Tag} {p : SyncPoint}

/-- The key of the first sync point of a queue, or the one kept when nothing is pending. -/
def firstKey : Queue → Nat
  | [] => idleKey
  | p :: _ => p.time.key

theorem refresh_nextKey (s : Scheduler) : s.refresh.nextKey = firstKey s.queue := by
  have hfirst : s.pending.first? = s.queue.head? := s.pending.first?_eq_head?
  rw [refresh, hfirst]
  cases s.queue <;> rfl

/-- The operations of a scheduler take care of the kept key. -/
structure Sound (s : Scheduler) : Prop where
  cached : s.nextKey = firstKey s.queue

theorem Sound.refresh (s : Scheduler) : Sound s.refresh := ⟨refresh_nextKey s⟩

theorem SamePending.sound (h : SamePending s s') (hs : Sound s) : Sound s' where
  cached := by
    rw [h.queue, h.nextKey]
    exact hs.cached

theorem Sound.start (t : Instant) : Sound (start t) := ⟨rfl⟩

theorem Sound.register (h : s.register time device tag = .ok s') : Sound s' := by
  obtain ⟨-, rfl⟩ := register_eq_ok.mp h
  exact .refresh _

theorem Sound.cancel (hs : Sound s) (device : DeviceId) (tag : Tag) :
    Sound (s.cancel device tag).2 := by
  cases hf : s.find? device tag with
  | some p =>
    rw [cancel_of_found hf]
    exact .refresh _
  | none =>
    rw [cancel_of_none hf]
    exact hs

theorem Sound.cancelAll (hs : Sound s) (device : DeviceId) : Sound (s.cancelAll device).2 := by
  rcases cancelAll_cases device s with h | ⟨-, h⟩
  · rw [h]
    exact .refresh _
  · rw [h]
    exact hs

theorem Sound.takeDue (h : s.takeDue limit = (some (p, t), s')) : Sound s' := by
  obtain ⟨rest, -, -, -, rfl⟩ := takeDue_eq_some.mp h
  exact ⟨(Sound.refresh { s with pending := s.pending.pop }).cached⟩

end Scheduler

variable {σ α : Type} {w w₀ v : World σ} {e : Event}

theorem Step.sound (h : Step w e v) (hs : w.scheduler.Sound) : v.scheduler.Sound := by
  cases h with
  | register h => exact .register h
  | cancel _ => exact hs.cancel _ _
  | cancelAll device => exact hs.cancelAll device
  | bury device =>
    rcases World.bury_cases device w with ⟨-, h⟩ | ⟨-, h⟩
    · rw [h]
      exact hs
    · rw [h]
      exact hs.cancelAll device
  | wake h _ | skip h _ => exact .takeDue h
  | setCurrentTime thread time => exact (Scheduler.samePending_setCurrentTime thread time _).sound hs
  | idle thread _ => exact (Scheduler.samePending_idle thread _ _).sound hs
  | enter thread limit => exact (Scheduler.samePending_enter thread limit _).sound hs
  | reach _ _ => exact (Scheduler.samePending_reach _ _).sound hs
  | leave => exact (Scheduler.samePending_leave _).sound hs
  | live lifetimes => exact hs
  | work | ask => exact hs

/-- Whatever a program does, the scheduler is in order at every moment. -/
theorem Program.worlds_sound {t : Instant} {p : Program σ α}
    (h₀ : w₀.scheduler = Scheduler.start t) (hw : w ∈ p.worlds w₀) : w.scheduler.Sound := by
  apply p.worlds_preserve (fun step => step.sound) hw
  rw [h₀]
  exact .start t

namespace Scheduler

variable {s : Scheduler} {limit : Instant}

theorem Sound.nextKey_eq (hs : Sound s) :
    s.queue = [] ∧ s.nextKey = idleKey ∨
      ∃ p ∈ s.queue, s.nextKey = p.time.key ∧ ∀ q ∈ s.queue, p.time ≤ q.time := by
  cases hq : s.queue with
  | nil =>
    refine Or.inl ⟨rfl, ?_⟩
    rw [hs.cached, hq, firstKey]
  | cons p rest =>
    refine Or.inr ⟨p, List.mem_cons_self, ?_, ?_⟩
    · rw [hs.cached, hq, firstKey]
    · rw [← hq]
      exact head_le hq

theorem next_of_key {t : Instant} (h : s.nextKey = t.key) :
    s.next = if t = .asap then s.currentTime else t := by
  have ht : Instant.ofKey s.nextKey = t := by rw [h, Instant.ofKey_key]
  rw [next, ht]
  by_cases ha : t = .asap
  · simp only [ha, Instant.isAsap_asap, if_true]
  · simp only [Instant.isAsap_of_ne ha, ha, if_false, Bool.false_eq_true]

/-- Nothing pending looks like a sync point that is never reached. -/
theorem Sound.next_of_nil (hs : Sound s) (hq : s.queue = []) : s.next = .never := by
  have hk : s.nextKey = Instant.never.key := by
    rw [hs.cached, hq]
    rfl
  rw [next_of_key hk, if_neg (by decide)]

theorem Sound.next_of_asap (hs : Sound s) (h : ∃ q ∈ s.queue, q.time = .asap) :
    s.next = s.currentTime := by
  obtain ⟨q, hq, ha⟩ := h
  rcases hs.nextKey_eq with ⟨hn, -⟩ | ⟨p, -, hk, hle⟩
  · rw [hn] at hq
    cases hq
  · have hp : p.time = .asap := Instant.le_antisymm (ha ▸ hle q hq) Instant.asap_le
    rw [next_of_key hk, if_pos hp]

theorem Sound.next_of_no_asap (hs : Sound s) (h : ∀ q ∈ s.queue, q.time ≠ .asap)
    (hne : s.queue ≠ []) :
    ∃ p ∈ s.queue, s.next = p.time ∧ ∀ q ∈ s.queue, p.time ≤ q.time := by
  rcases hs.nextKey_eq with ⟨hn, -⟩ | ⟨p, hp, hk, hle⟩
  · exact absurd hn hne
  · refine ⟨p, hp, ?_, hle⟩
    rw [next_of_key hk, if_neg (h p hp)]

theorem Sound.next_eq_never_iff (hs : Sound s) :
    s.next = .never ↔
      (∀ q ∈ s.queue, q.time = .never) ∨
        (∃ q ∈ s.queue, q.time = .asap) ∧ s.currentTime = .never := by
  constructor
  · intro h
    by_cases ha : ∃ q ∈ s.queue, q.time = .asap
    · rw [hs.next_of_asap ha] at h
      exact Or.inr ⟨ha, h⟩
    · refine Or.inl fun q hq => ?_
      have hna : ∀ q ∈ s.queue, q.time ≠ .asap := fun q hq hqa => ha ⟨q, hq, hqa⟩
      obtain ⟨p, -, hp, hle⟩ := hs.next_of_no_asap hna (List.ne_nil_of_mem hq)
      rw [hp] at h
      exact Instant.le_antisymm Instant.le_never (h ▸ hle q hq)
  · rintro (h | ⟨ha, hc⟩)
    · by_cases hne : s.queue = []
      · exact hs.next_of_nil hne
      · have hna : ∀ q ∈ s.queue, q.time ≠ .asap := by
          intro q hq hqa
          rw [h q hq] at hqa
          exact absurd hqa (by decide)
        obtain ⟨p, hp, hn, -⟩ := hs.next_of_no_asap hna hne
        rw [hn, h p hp]
    · rw [hs.next_of_asap ha, hc]

theorem ne_asap_of_isIdleUntil (h : s.isIdleUntil limit = true) : limit ≠ .asap := by
  rw [isIdleUntil, Bool.and_eq_true] at h
  rintro rfl
  exact absurd h.1 (by decide)

/-- Time may move without a look at the queue only if nothing that is pending is due. -/
theorem Sound.lt_of_isIdleUntil (hs : Sound s) (h : s.isIdleUntil limit = true) :
    limit ≠ .asap ∧ ∀ q ∈ s.queue, limit < q.time := by
  refine ⟨ne_asap_of_isIdleUntil h, ?_⟩
  rw [isIdleUntil, Bool.and_eq_true, decide_eq_true_iff] at h
  intro q hq
  rcases hs.nextKey_eq with ⟨hn, -⟩ | ⟨p, -, hk, hle⟩
  · rw [hn] at hq
    cases hq
  · rw [hk] at h
    exact Instant.lt_of_lt_of_le (Instant.lt_iff_key.mpr h.2) (hle q hq)

theorem Sound.isIdleUntil_of_due (hs : Sound s) (h : ∃ q ∈ s.queue, q.time ≤ limit) :
    s.isIdleUntil limit = false := by
  obtain ⟨q, hq, hle⟩ := h
  cases hi : s.isIdleUntil limit with
  | false => rfl
  | true => exact absurd hle (Instant.not_le.mpr ((hs.lt_of_isIdleUntil hi).2 q hq))

end Scheduler

/-- At every moment of every run the kept key is that of the least pending instant, the next instant
is the least pending one, and time is moved without a look at the queue only if nothing is due. -/
theorem next_is_least_pending {t : Instant} (h₀ : w₀.scheduler = Scheduler.start t)
    (p : Program σ α) (hw : w ∈ p.worlds w₀) :
    (w.scheduler.queue = [] → w.scheduler.nextKey = UInt64.size - 1) ∧
    (w.scheduler.queue ≠ [] → ∃ q ∈ w.scheduler.queue,
      w.scheduler.nextKey = q.time.key ∧ ∀ r ∈ w.scheduler.queue, q.time ≤ r.time) ∧
    ((∃ q ∈ w.scheduler.queue, q.time = .asap) → w.scheduler.next = w.scheduler.currentTime) ∧
    ((∀ q ∈ w.scheduler.queue, q.time ≠ .asap) → w.scheduler.queue ≠ [] →
      ∃ q ∈ w.scheduler.queue,
        w.scheduler.next = q.time ∧ ∀ r ∈ w.scheduler.queue, q.time ≤ r.time) ∧
    (w.scheduler.next = .never ↔
      (∀ q ∈ w.scheduler.queue, q.time = .never) ∨
        (∃ q ∈ w.scheduler.queue, q.time = .asap) ∧ w.scheduler.currentTime = .never) ∧
    ∀ (limit : Instant), (∃ q ∈ w.scheduler.queue, q.time ≤ limit) →
      w.scheduler.isIdleUntil limit = false ∧
        ∀ (wake : Wake σ) (steps : Nat) (thread : ThreadId),
          World.schedule wake steps thread limit w =
            World.scheduleDue wake steps thread limit w := by
  have hs := Program.worlds_sound h₀ hw
  refine ⟨?_, ?_, hs.next_of_asap, hs.next_of_no_asap, hs.next_eq_never_iff, ?_⟩
  · intro hq
    rw [hs.cached, hq]
    rfl
  · intro hne
    rcases hs.nextKey_eq with ⟨hq, -⟩ | h
    · exact absurd hq hne
    · exact h
  · intro limit hdue
    have hidle := hs.isIdleUntil_of_due hdue
    exact ⟨hidle, fun wake steps thread => World.schedule_of_due hidle⟩

/-- A wake-up that registers another one and then breaks off. -/
def breakingOff : Reaction Unit := fun device _ tag =>
  .andThen (.register .asap device tag) fun _ => .halt (.fault (.violated .deviceFailure))

/-- Two wake-ups, the first of which breaks off. -/
def brokenRun : Program Unit Unit :=
  .andThen (.enroll true) fun device =>
    .andThen (.register (.wrap 5) device 0) fun _ =>
      .andThen (.register (.wrap 9) device 1) fun _ => .schedule breakingOff 3 0 (.wrap 9)

theorem next_is_least_pending_broken :
    (brokenRun.after (.ofScheduler .new ())).scheduler.queue.map SyncPoint.time =
        [.asap, .wrap 9] ∧
      (brokenRun.after (.ofScheduler .new ())).scheduler.next = .wrap 5 := by
  have h₀ : (World.ofScheduler .new () : World Unit).scheduler = .start .zero := rfl
  have h := next_is_least_pending h₀ brokenRun (brokenRun.after_mem_worlds _)
  refine ⟨by decide, ?_⟩
  rw [h.2.2.1 (by decide)]
  decide

/-- Time stands at the instant never reached when something is wanted at the earliest opportunity.
It should not get there, see `Scheduler.setCurrentTime`; what is next is told by the rule for all
current times. -/
def wantedAtTheEnd : Program Unit Unit :=
  .andThen (.schedule (fun _ _ _ => .done ()) 1 0 .never) fun _ => .register .asap 0 0

/-- The next instant may be the one never reached though something is due at once. -/
theorem next_never_with_asap :
    ¬ ∀ (p : Program Unit Unit), ∀ w ∈ p.worlds (.ofScheduler .new ()),
      (w.scheduler.next = .never ↔ ∀ q ∈ w.scheduler.queue, q.time = .never) := by
  intro h
  have hw := h wantedAtTheEnd _ (wantedAtTheEnd.after_mem_worlds _)
  have hn : (wantedAtTheEnd.after (.ofScheduler .new ())).scheduler.next = .never := by decide
  have hq : ¬ ∀ q ∈ (wantedAtTheEnd.after (.ofScheduler .new ())).scheduler.queue,
      q.time = .never := by decide
  exact hq (hw.mp hn)

end Timebase
