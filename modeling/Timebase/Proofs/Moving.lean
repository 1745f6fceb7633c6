import Timebase.Proofs.Ownership
import Timebase.Proofs.Punctuality

/-!
# Moving time on

The world that comes out when time is moved to a limit depends on the limit alone: not on the steps
there were for it, not on stops on the way, and, for devices that leave time alone, not on the
thread.
-/

namespace Timebase

variable {σ : Type} {w v u : World σ} {react : Reaction σ} {steps steps' : Nat}
  {thread other : ThreadId} {a b limit : Instant}

namespace World

theorem schedule_mono {wake : Wake σ} (h : schedule wake steps thread limit w = .ok () v)
    (hle : steps ≤ steps') : schedule wake steps' thread limit w = .ok () v := by
  cases hi : w.scheduler.isIdleUntil limit with
  | true =>
    rw [schedule_of_idle hi] at h ⊢
    exact h
  | false =>
    rw [schedule_of_due hi] at h ⊢
    obtain ⟨s, u, henter, hdispatch, rfl⟩ := scheduleDue_eq_ok.mp h
    exact scheduleDue_eq_ok.mpr ⟨s, u, henter, dispatch_mono hdispatch hle, rfl⟩

/-- Delivery up to one limit and then up to a later one is delivery up to the later one. -/
theorem dispatch_joined {wake : Wake σ} (hab : a ≤ b) (h : dispatch wake a steps w = .ok () u)
    (h' : dispatch wake b steps' u = .ok () v) :
    dispatch wake b (steps + steps') w = .ok () v := by
  induction steps generalizing w with
  | zero => cases h
  | succ steps ih =>
    rw [Nat.add_right_comm]
    rcases dispatch_succ wake a steps w with
      ⟨-, he⟩ | ⟨p, time, s, w', hd, hp, he⟩ | ⟨_, _, _, _, _, -, -, he⟩
    · rw [he] at h
      cases h
      exact dispatch_mono h' (by omega)
    · rw [he] at h
      -- what is due by the first limit is due by the later one as well
      obtain ⟨rest, hq, hdue, ht, hs⟩ := Scheduler.takeDue_eq_some.mp hd
      have hdb : w.scheduler.takeDue b = (some (p, time), s) :=
        Scheduler.takeDue_eq_some.mpr ⟨rest, hq, Instant.le_trans hdue hab, ht, hs⟩
      rw [dispatch_of_ok hdb hp]
      exact ih h
    · rw [he] at h
      cases h

theorem dispatch_of_reached {wake : Wake σ} (ht : w.scheduler.currentTime ≠ .asap) (ha : a ≠ .asap)
    (hab : a ≤ b) (hn : (w.scheduler.takeDue a).1 = none)
    (h : dispatch wake b steps (w.reached a) = .ok () v) :
    ∃ v', dispatch wake b steps w = .ok () v' ∧ v'.reached b = v.reached b := by
  cases steps with
  | zero => cases h
  | succ steps =>
    rcases dispatch_succ wake b steps w with
      ⟨-, he⟩ | ⟨p, time, s, w', hd, hp, he⟩ | ⟨p, time, s, halt, w', hd, hp, -⟩
    · obtain ⟨v', hv', hreach⟩ := dispatch_reached ht ha hab hn he
      rw [h] at hv'
      cases hv'
      exact ⟨w, he, hreach.symm⟩
    · have hd' : (w.reached a).scheduler.takeDue b = (some (p, time), s) :=
        Scheduler.takeDue_reach ht ha hn hd
      exact ⟨v, he.trans ((dispatch_of_ok hd' hp).symm.trans h), rfl⟩
    · have hd' : (w.reached a).scheduler.takeDue b = (some (p, time), s) :=
        Scheduler.takeDue_reach ht ha hn hd
      cases (dispatch_of_error hd' hp).symm.trans h

/-- With enough steps time can be moved to a limit, and the world comes out so. -/
def MovesTo (react : Reaction σ) (thread : ThreadId) (limit : Instant) (w v : World σ) : Prop :=
  ∃ steps, schedule react.wake steps thread limit w = .ok () v

namespace MovesTo

theorem unique (h : MovesTo react thread limit w v) (h' : MovesTo react thread limit w u) :
    v = u := by
  obtain ⟨n, hv⟩ := h
  obtain ⟨m, hu⟩ := h'
  have hv := schedule_mono hv (Nat.le_max_left n m)
  rw [schedule_mono hu (Nat.le_max_right n m)] at hv
  cases hv
  rfl

theorem preserves {I : World σ → Prop} (hstep : ∀ {w e v}, Step w e v → I w → I v)
    (h : MovesTo react thread limit w v) (hw : I w) : I v := by
  obtain ⟨n, h⟩ := h
  have hafter : (Program.schedule react n thread limit).after w = v := Run.after_of_ok h
  rw [← hafter]
  exact (Program.path _ w).preserves hstep hw

theorem owner (h : MovesTo react thread limit w v) : w.scheduler.owner.getD thread = thread := by
  obtain ⟨n, h⟩ := h
  cases hi : w.scheduler.isIdleUntil limit with
  | true =>
    rw [schedule_of_idle hi] at h
    obtain ⟨s, hs, -⟩ := onScheduler_eq_ok.mp h
    exact (Scheduler.idle_eq_ok.mp hs).1
  | false =>
    rw [schedule_of_due hi] at h
    obtain ⟨s, u, henter, -⟩ := scheduleDue_eq_ok.mp h
    exact (Scheduler.enter_eq_ok.mp henter).1

theorem boundTo (hreact : react.LeavesTime) (ho : w.scheduler.owner.getD thread = thread)
    (h : MovesTo react other limit w v) : MovesTo react thread limit w (v.boundTo thread) := by
  obtain ⟨n, h⟩ := h
  exact ⟨n, schedule_boundTo hreact ho h⟩

theorem sliced (hs : w.scheduler.Sound) (ht : w.scheduler.currentTime ≠ .asap) (ha : a ≠ .asap)
    (hab : a ≤ b) (h : MovesTo react thread b w v) :
    ∃ u, MovesTo react thread a w u ∧ MovesTo react thread b u v := by
  obtain ⟨n, h⟩ := h
  obtain ⟨u, hu, hv⟩ := schedule_sliced hs ht ha hab h
  exact ⟨u, ⟨n, hu⟩, ⟨n, hv⟩⟩

/-- Moving time on to a later limit makes up for a stop. -/
theorem joined (hs : w.scheduler.Sound) (ht : w.scheduler.currentTime ≠ .asap) (hab : a ≤ b)
    (h : MovesTo react thread a w u) (h' : MovesTo react thread b u v) :
    MovesTo react thread b w v := by
  have hsu : u.scheduler.Sound := h.preserves (fun step => step.sound) hs
  obtain ⟨n, h⟩ := h
  obtain ⟨m, h'⟩ := h'
  -- given one step more, neither move can tell the quick way from the long one
  have h := schedule_mono h (Nat.le_succ n)
  have h' := schedule_mono h' (Nat.le_succ m)
  rw [schedule_eq_scheduleDue hs] at h
  rw [schedule_eq_scheduleDue hsu] at h'
  obtain ⟨_, u₁, henter, hfirst, rfl⟩ := scheduleDue_eq_ok.mp h
  obtain ⟨ho, ha, hd, rfl⟩ := Scheduler.enter_eq_ok.mp henter
  obtain ⟨_, v₁, henter', hsecond, rfl⟩ := scheduleDue_eq_ok.mp h'
  obtain ⟨-, hb, -, rfl⟩ := Scheduler.enter_eq_ok.mp henter'
  have hsecond : dispatch react.wake b (m + 1) (u₁.reached a) = .ok () v₁ := by
    rw [reached, ← entered_again hfirst]
    exact hsecond
  have htu : u₁.scheduler.currentTime ≠ .asap :=
    dispatch_preserves (fun step => step.timed) hfirst ht
  obtain ⟨v₂, hlast, hreach⟩ :=
    dispatch_of_reached htu ha hab (takeDue_of_dispatch hfirst) hsecond
  have hall := dispatch_joined hab hfirst hlast
  have hleave := congrArg (fun w : World σ => { w with scheduler := w.scheduler.leave }) hreach
  refine ⟨n + 1 + m + 1, ?_⟩
  rw [schedule_eq_scheduleDue hs]
  exact scheduleDue_eq_ok.mpr ⟨_, v₂, Scheduler.enter_eq_ok.mpr ⟨ho, hb, hd, rfl⟩, hall,
    hleave.symm⟩

end MovesTo
end World
end Timebase
