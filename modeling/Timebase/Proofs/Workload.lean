import Mathlib.Algebra.BigOperators.Group.List.Basic
import Mathlib.Algebra.Order.Ring.Nat
import Timebase.Proofs.Wanted

/-!
# Deliveries come to an end

A wake-up may ask for another one, and that one for yet another. Where each asks for one at most,
and for a later one than itself, only so many come due up to a limit. So their delivery ends, unless
it breaks off.
-/

namespace Timebase

variable {limit time t : Instant} {device : DeviceId} {tag : Tag} {p q : SyncPoint}

/-- How many instants there are from one up to a limit; the earliest opportunity is before them
all. -/
def Instant.upTo (limit time : Instant) : Nat := limit.key + 1 - time.key

theorem Instant.upTo_lt {a b : Instant} (ha : a ≤ limit) (hlt : a < b) :
    limit.upTo b < limit.upTo a := by
  rw [Instant.le_iff_key] at ha
  rw [Instant.lt_iff_key] at hlt
  rw [upTo, upTo]
  omega

theorem Instant.upTo_pos (h : time ≤ limit) : 0 < limit.upTo time := by
  rw [Instant.le_iff_key] at h
  rw [upTo]
  omega

namespace Scheduler

variable {s s' : Scheduler}

/-- What there may be to deliver up to a limit: no more wake-ups than this follow from what is
pending, if each asks for one at most and for a later one. -/
def workload (limit : Instant) (s : Scheduler) : Nat :=
  (s.queue.map fun p => limit.upTo p.time).sum

theorem workload_takeDue (h : s.takeDue limit = (some (p, t), s')) :
    s.workload limit = limit.upTo p.time + s'.workload limit := by
  rw [workload, queue_takeDue h, List.map_cons, List.sum_cons, workload]

theorem workload_register (h : s.register time device tag = .ok s') :
    s'.workload limit = limit.upTo time + s.workload limit := by
  have hperm := (perm_of_register h).map fun p => limit.upTo p.time
  exact hperm.sum_eq

theorem checkOwner_ends (thread : ThreadId) (operation : OwnerOperation) :
    Run.Ends (checkOwner thread operation) :=
  .bind .get fun _ => .bind (.modify _) fun _ => .lift _

theorem idle_ends (thread : ThreadId) (limit : Instant) : Run.Ends (idle thread limit) :=
  .bind (checkOwner_ends thread _) fun _ => .bind .get fun _ => .bind (.lift _) fun _ => .modify _

theorem enter_ends (thread : ThreadId) (limit : Instant) : Run.Ends (enter thread limit) :=
  .bind (checkOwner_ends thread _) fun _ => .bind (.lift _) fun _ => .bind .get fun _ =>
    .bind (.modify _) fun _ => .lift _

end Scheduler

namespace World

variable {σ : Type} {wake : Wake σ} {steps : Nat} {thread : ThreadId} {w v : World σ}
  {I : World σ → Prop}

/-- While a property holds, whatever is due up to a limit is delivered, keeps the property and leaves
less to deliver. -/
def Progresses (wake : Wake σ) (limit : Instant) (I : World σ → Prop) : Prop :=
  ∀ ⦃w p t s⦄, I w → w.scheduler.takeDue limit = (some (p, t), s) →
    ∃ v, deliver wake p t { w with scheduler := s } = .ok () v ∧ I v ∧
      v.scheduler.workload limit < w.scheduler.workload limit

namespace Progresses

/-- With as many steps as there may be wake-ups, and one to find that there are no more, delivery
comes to its end. -/
theorem dispatch_ends (h : Progresses wake limit I) (hw : I w)
    (hsteps : w.scheduler.workload limit < steps) :
    ∃ v, dispatch wake limit steps w = .ok () v ∧ I v := by
  induction steps generalizing w with
  | zero => omega
  | succ steps ih =>
    rcases dispatch_succ wake limit steps w with
      ⟨-, he⟩ | ⟨p, t, s, u, hd, hp, he⟩ | ⟨p, t, s, halt, u, hd, hp, -⟩
    · exact ⟨w, he, hw⟩
    · obtain ⟨u', hp', hu, hless⟩ := h hw hd
      cases hp.symm.trans hp'
      rw [he]
      exact ih hu (by omega)
    · obtain ⟨u', hp', -⟩ := h hw hd
      cases hp.symm.trans hp'

theorem dispatch_eq_error (h : Progresses wake limit I) (hw : I w) {halt : Halt}
    (herror : dispatch wake limit steps w = .error halt v) : halt = .starved := by
  induction steps generalizing w with
  | zero =>
    cases herror
    rfl
  | succ steps ih =>
    rcases dispatch_succ wake limit steps w with
      ⟨-, he⟩ | ⟨p, t, s, u, hd, hp, he⟩ | ⟨p, t, s, halt, u, hd, hp, -⟩
    · cases he.symm.trans herror
    · obtain ⟨u', hp', hu, -⟩ := h hw hd
      cases hp.symm.trans hp'
      exact ih hu (he.symm.trans herror)
    · obtain ⟨u', hp', -⟩ := h hw hd
      cases hp.symm.trans hp'

variable (howner : w.scheduler.owner.getD thread = thread)
  (hidle : w.scheduler.dispatching = false) (hlimit : limit ≠ .asap)

include howner hidle hlimit

/-- So time can be moved to the limit, by the thread that may do so. -/
theorem schedule_ends (h : Progresses wake limit I)
    (hw : I { w with scheduler := w.scheduler.enteredBy thread }) :
    ∃ v, ∀ steps, w.scheduler.workload limit < steps →
      schedule wake steps thread limit w = .ok () v := by
  cases hi : w.scheduler.isIdleUntil limit with
  | true =>
    refine ⟨{ w with scheduler := (w.scheduler.ownedBy thread).reach limit }, fun steps _ => ?_⟩
    rw [schedule_of_idle hi]
    exact onScheduler_of_ok (Scheduler.idle_of_ok howner hidle)
  | false =>
    obtain ⟨u, hu, -⟩ := h.dispatch_ends hw (Nat.lt_succ_self _)
    refine ⟨{ u with scheduler := (u.scheduler.reach limit).leave }, fun steps hsteps => ?_⟩
    rw [schedule_of_due hi]
    exact scheduleDue_eq_ok.mpr
      ⟨_, u, Scheduler.enter_of_ok howner hlimit hidle, dispatch_mono hu hsteps, rfl⟩

theorem schedule_eq_error (h : Progresses wake limit I)
    (hw : I { w with scheduler := w.scheduler.enteredBy thread }) {halt : Halt}
    (herror : schedule wake steps thread limit w = .error halt v) : halt = .starved := by
  cases hi : w.scheduler.isIdleUntil limit with
  | true =>
    rw [schedule_of_idle hi, onScheduler_of_ok (Scheduler.idle_of_ok howner hidle)] at herror
    cases herror
  | false =>
    have henter := Scheduler.enter_of_ok howner hlimit hidle
    rw [schedule_of_due hi] at herror
    cases hd : dispatch wake limit steps
        { w with scheduler := w.scheduler.enteredBy thread } with
    | ok _ u =>
      rw [scheduleDue_of_ok (onScheduler_of_ok henter) hd] at herror
      cases herror
    | error cause u =>
      rw [scheduleDue_of_halted (onScheduler_of_ok henter) hd] at herror
      cases herror
      exact h.dispatch_eq_error hw hd

end Progresses

/-- While a property holds, delivering what is due up to a limit never lacks steps, though it may
break off; otherwise it keeps the property and leaves less of a load. -/
def Dwindles (wake : Wake σ) (limit : Instant) (I : World σ → Prop) (load : World σ → Nat) : Prop :=
  ∀ ⦃w p t s⦄, I w → w.scheduler.takeDue limit = (some (p, t), s) →
    ¬ (deliver wake p t).Starves { w with scheduler := s } ∧
      ∀ v, deliver wake p t { w with scheduler := s } = .ok () v → I v ∧ load v < load w

namespace Dwindles

variable {load : World σ → Nat}

theorem dispatch_ends (h : Dwindles wake limit I load) (hw : I w) (hsteps : load w < steps) :
    ¬ (dispatch wake limit steps).Starves w := by
  induction steps generalizing w with
  | zero => omega
  | succ steps ih =>
    rintro ⟨v, hstarved⟩
    rcases dispatch_succ wake limit steps w with
      ⟨-, he⟩ | ⟨p, t, s, u, hd, hp, he⟩ | ⟨p, t, s, halt, u, hd, hp, he⟩
    · cases he.symm.trans hstarved
    · obtain ⟨hu, hless⟩ := (h hw hd).2 u hp
      exact ih hu (by omega) ⟨v, he.symm.trans hstarved⟩
    · cases he.symm.trans hstarved
      exact (h hw hd).1 ⟨v, hp⟩

/-- So with more steps than the load a call to move time comes to its end or breaks off. -/
theorem schedule_ends (h : Dwindles wake limit I load)
    (hw : I { w with scheduler := w.scheduler.enteredBy thread })
    (hsteps : load { w with scheduler := w.scheduler.enteredBy thread } < steps) :
    ¬ (schedule wake steps thread limit).Starves w := by
  rintro ⟨v, hstarved⟩
  cases hi : w.scheduler.isIdleUntil limit with
  | true =>
    rw [schedule_of_idle hi] at hstarved
    obtain ⟨s, hs, -⟩ := onScheduler_eq_error.mp hstarved
    exact Scheduler.idle_ends thread limit _ ⟨s, hs⟩
  | false =>
    rw [schedule_of_due hi] at hstarved
    cases henter : Scheduler.enter thread limit w.scheduler with
    | error halt s =>
      rw [scheduleDue_of_refused (onScheduler_of_error henter)] at hstarved
      cases hstarved
      exact Scheduler.enter_ends thread limit _ ⟨s, henter⟩
    | ok _ s =>
      obtain ⟨-, -, -, rfl⟩ := Scheduler.enter_eq_ok.mp henter
      have hon : onScheduler (Scheduler.enter thread limit) w =
          .ok () { w with scheduler := w.scheduler.enteredBy thread } := onScheduler_of_ok henter
      cases hd : dispatch wake limit steps { w with scheduler := w.scheduler.enteredBy thread } with
      | ok _ u =>
        rw [scheduleDue_of_ok hon hd] at hstarved
        cases hstarved
      | error halt u =>
        rw [scheduleDue_of_halted hon hd] at hstarved
        cases hstarved
        exact h.dispatch_ends hw hsteps ⟨u, hd⟩

end Dwindles
end World
end Timebase
