import Timebase.Proofs.Slicing

/-!
# Deliveries under way

A delivery is under way for the thread that asked for it. Meanwhile a call to move time is turned
away without a trace, so it makes no difference whether it is made.
-/

namespace Timebase

namespace Scheduler

variable {s : Scheduler} {thread : ThreadId}

theorem ownedBy_of_owner (h : s.owner = some thread) : s.ownedBy thread = s := by
  rw [ownedBy, ← h]

theorem enteredBy_of_owner (h : s.owner = some thread) (hd : s.dispatching = true) :
    s.enteredBy thread = s := by
  rw [enteredBy, ownedBy_of_owner h, ← hd]

end Scheduler

variable {σ α : Type} {w v : World σ}

namespace World

variable {react : Reaction σ} {steps : Nat} {thread : ThreadId} {limit t : Instant} {p : SyncPoint}

/-- A delivery is under way on behalf of a thread. -/
structure DeliversFor (thread : ThreadId) (w : World σ) : Prop where
  mark : w.scheduler.dispatching = true
  owner : w.scheduler.owner = some thread

theorem DeliversFor.after (h : DeliversFor thread w) (p : Program σ α) :
    DeliversFor thread (p.after w) :=
  ⟨(p.keepsMark w).trans h.mark, (p.path w).preserves (fun step => step.owned) h.owner⟩

theorem DeliversFor.retain (h : DeliversFor thread w) (device : DeviceId) :
    DeliversFor thread (w.retain device) := ⟨h.mark, h.owner⟩

theorem DeliversFor.takeDue (h : DeliversFor thread w) {s : Scheduler}
    (hd : w.scheduler.takeDue limit = (some (p, t), s)) :
    DeliversFor thread { w with scheduler := s } := by
  obtain ⟨rest, -, -, -, rfl⟩ := Scheduler.takeDue_eq_some.mp hd
  exact ⟨h.mark, h.owner⟩

theorem DeliversFor.deliver (h : DeliversFor thread w)
    (hp : World.deliver react.wake p t w = .ok () v) : DeliversFor thread v := by
  rw [← Run.after_of_ok hp]
  cases ha : w.isAlive p.device with
  | true =>
    have hafter := (h.retain p.device).after (react p.device t p.tag)
    rw [Run.after_congr (deliver_of_alive ha), after_during]
    have hsame := fun v : World σ => release_sameTime p.device v
    exact ⟨(hsame _).dispatching.trans hafter.mark, (hsame _).owner.trans hafter.owner⟩
  | false =>
    rw [Run.after_of_ok (deliver_of_gone ha)]
    exact ⟨h.mark, h.owner⟩

/-- The delivery stays under way at every moment of a wake-up. -/
theorem DeliversFor.worlds {p : Program σ α} (h : DeliversFor thread w) (hv : v ∈ p.worlds w) :
    DeliversFor thread v := by
  refine ⟨?_, p.worlds_preserve (fun step => step.owned) hv h.owner⟩
  rcases List.mem_cons.mp hv with rfl | hv
  · exact h.mark
  · obtain ⟨m, hm, rfl⟩ := List.mem_map.mp hv
    exact ((p.history_aside h.mark).mark m hm).trans h.mark

/-- Wake-ups that come out the same within a delivery are delivered alike. -/
private theorem dispatch_congr (wake : Wake σ)
    (h : ∀ device time tag u, DeliversFor thread u →
      wake device time tag u = react.wake device time tag u)
    (hw : DeliversFor thread w) :
    dispatch wake limit steps w = dispatch react.wake limit steps w := by
  induction steps generalizing w with
  | zero => rfl
  | succ steps ih =>
    rcases dispatch_succ react.wake limit steps w with
      ⟨hn, he⟩ | ⟨p, t, s, v, hd, hp, he⟩ | ⟨p, t, s, halt, v, hd, hp, he⟩
    · rw [he, dispatch_of_none hn]
    all_goals
      have hs := hw.takeDue hd
      have hdeliver : deliver wake p t { w with scheduler := s } =
          deliver react.wake p t { w with scheduler := s } := by
        cases ha : ({ w with scheduler := s } : World σ).isAlive p.device with
        | true =>
          rw [deliver_of_alive ha, deliver_of_alive ha]
          exact during_congr (h _ _ _ _ (hs.retain p.device))
        | false => rw [deliver_of_gone ha, deliver_of_gone ha]
    · rw [he, dispatch_of_ok hd (hdeliver.trans hp)]
      exact ih (hs.deliver hp)
    · rw [he, dispatch_of_error hd (hdeliver.trans hp)]

theorem schedule_congr (wake : Wake σ)
    (h : ∀ device time tag u, DeliversFor thread u →
      wake device time tag u = react.wake device time tag u) :
    schedule wake steps thread limit w = schedule react.wake steps thread limit w := by
  cases hi : w.scheduler.isIdleUntil limit with
  | true => rw [schedule_of_idle hi, schedule_of_idle hi]
  | false =>
    rw [schedule_of_due hi, schedule_of_due hi]
    cases he : onScheduler (Scheduler.enter thread limit) w with
    | error halt v => rw [scheduleDue_of_refused he, scheduleDue_of_refused he]
    | ok _ v =>
      obtain ⟨s, hs, rfl⟩ := onScheduler_eq_ok.mp he
      obtain ⟨-, -, -, rfl⟩ := Scheduler.enter_eq_ok.mp hs
      have hsame : dispatch wake limit steps { w with scheduler := w.scheduler.enteredBy thread } =
          dispatch react.wake limit steps { w with scheduler := w.scheduler.enteredBy thread } :=
        dispatch_congr wake h ⟨rfl, rfl⟩
      cases hd : dispatch react.wake limit steps
          { w with scheduler := w.scheduler.enteredBy thread } with
      | error halt u =>
        rw [scheduleDue_of_halted he hd, scheduleDue_of_halted he (hsame.trans hd)]
      | ok _ u => rw [scheduleDue_of_ok he hd, scheduleDue_of_ok he (hsame.trans hd)]

theorem schedule_refused (hw : DeliversFor thread w) (wake : Wake σ) (steps : Nat)
    (other : ThreadId) (limit : Instant) :
    ∃ cause, schedule wake steps other limit w = .error (.fault (.violated cause)) w ∧
      (other = thread → limit ≠ .asap → cause = .reentered) := by
  by_cases ho : other = thread
  · subst ho
    have howner : w.scheduler.owner.getD other = other := by
      rw [hw.owner]
      rfl
    cases hi : w.scheduler.isIdleUntil limit with
    | true =>
      refine ⟨.reentered, ?_, fun _ _ => rfl⟩
      rw [schedule_of_idle hi,
        onScheduler_of_error (Scheduler.idle_of_dispatching howner hw.mark),
        Scheduler.ownedBy_of_owner hw.owner]
    | false =>
      rw [schedule_of_due hi]
      by_cases hl : limit = .asap
      · subst hl
        refine ⟨.scheduleToAsap, ?_, fun _ h => absurd rfl h⟩
        rw [scheduleDue_of_refused (onScheduler_of_error (Scheduler.enter_of_asap howner)),
          Scheduler.ownedBy_of_owner hw.owner]
      · refine ⟨.reentered, ?_, fun _ _ => rfl⟩
        rw [scheduleDue_of_refused
            (onScheduler_of_error (Scheduler.enter_of_dispatching howner hl hw.mark)),
          Scheduler.enteredBy_of_owner hw.owner hw.mark]
  · have hforeign : w.scheduler.owner.getD other ≠ other := by
      rw [hw.owner]
      exact Ne.symm ho
    refine ⟨.foreignThread .schedule, ?_, fun h => absurd h ho⟩
    cases hi : w.scheduler.isIdleUntil limit with
    | true =>
      rw [schedule_of_idle hi, onScheduler_of_error (Scheduler.idle_of_foreign hforeign)]
    | false =>
      rw [schedule_of_due hi,
        scheduleDue_of_refused (onScheduler_of_error (Scheduler.enter_of_foreign hforeign))]

/-- Within a wake-up every attempt to move time fails and leaves the world as it is. -/
theorem DeliversFor.attempt (h : DeliversFor thread w) (react : Reaction σ) (steps : Nat)
    (other : ThreadId) (limit : Instant) :
    ∃ cause, (Program.attempt (.schedule react steps other limit)).run w =
        .ok (.error (.violated cause)) w ∧
      (other = thread → limit ≠ .asap → cause = .reentered) := by
  obtain ⟨cause, hrun, hcause⟩ := schedule_refused h react.wake steps other limit
  refine ⟨cause, ?_, hcause⟩
  show Run.attempt (schedule react.wake steps other limit) w = _
  rw [Run.attempt, hrun]

end World
end Timebase
