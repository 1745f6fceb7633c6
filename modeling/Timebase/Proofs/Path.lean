import Timebase.Proofs.Frame
import Timebase.Proofs.Program

/-!
# Paths of steps

A step is one change of a world by one operation. The history of a program is a path of steps from
the world it begins with to the one it leaves behind, so what every step preserves holds at every
moment of every run.
-/

namespace Timebase

variable {σ α : Type} {w v u : World σ}

/-- One change of a world. -/
inductive Step : World σ → Event → World σ → Prop where
  | register {w : World σ} {time : Instant} {device : DeviceId} {tag : Tag} {scheduler : Scheduler}
      (h : w.scheduler.register time device tag = .ok scheduler) :
      Step w (.registered ⟨time, device, tag, w.scheduler.nextSeq⟩) { w with scheduler }
  | cancel {w : World σ} {device : DeviceId} {tag : Tag} {p : SyncPoint}
      (h : w.scheduler.find? device tag = some p) :
      Step w (.cancelled [p]) { w with scheduler := (w.scheduler.cancel device tag).2 }
  | cancelAll (w : World σ) (device : DeviceId) :
      Step w (.cancelled (w.scheduler.queue.filter fun p => p.device == device))
        { w with scheduler := (w.scheduler.cancelAll device).2 }
  | bury (w : World σ) (device : DeviceId) : Step w (.buried (w.burial device)) (w.bury device)
  | wake {w : World σ} {limit time : Instant} {p : SyncPoint} {scheduler : Scheduler}
      (h : w.scheduler.takeDue limit = (some (p, time), scheduler))
      (alive : w.isAlive p.device = true) : Step w (.woken p time) { w with scheduler }
  | skip {w : World σ} {limit time : Instant} {p : SyncPoint} {scheduler : Scheduler}
      (h : w.scheduler.takeDue limit = (some (p, time), scheduler))
      (gone : w.isAlive p.device = false) :
      Step w (.skipped p time) { w with scheduler, skipped := w.skipped ++ [⟨p.tag, time⟩] }
  | setCurrentTime (w : World σ) (thread : ThreadId) (time : Instant) :
      Step w .timeSet
        { w with scheduler := (Scheduler.setCurrentTime thread time).after w.scheduler }
  | idle {w : World σ} {limit : Instant} (thread : ThreadId)
      (h : w.scheduler.isIdleUntil limit = true) :
      Step w .silent { w with scheduler := (Scheduler.idle thread limit).after w.scheduler }
  | enter (w : World σ) (thread : ThreadId) (limit : Instant) :
      Step w .silent { w with scheduler := (Scheduler.enter thread limit).after w.scheduler }
  | reach {w : World σ} {limit : Instant} (reachable : limit ≠ .asap)
      (h : (w.scheduler.takeDue limit).1 = none) :
      Step w .silent { w with scheduler := w.scheduler.reach limit }
  | leave (w : World σ) : Step w .silent { w with scheduler := w.scheduler.leave }
  | live (w : World σ) (lifetimes : List Lifetime) : Step w .silent { w with lifetimes }
  | work (w : World σ) (devices : σ) : Step w .silent { w with devices }
  | ask (w : World σ) (device : DeviceId) (demand : Demand) (devices : σ) :
      Step w (.asked device demand) { w with devices }

/-- Moments that follow from a world one by one, up to another world. -/
inductive Path : World σ → List (Moment σ) → World σ → Prop where
  | nil (w : World σ) : Path w [] w
  | cons {w v : World σ} {m : Moment σ} {ms : List (Moment σ)} (step : Step w m.event m.world)
      (rest : Path m.world ms v) : Path w (m :: ms) v

namespace Path

variable {ms ns : List (Moment σ)} {m : Moment σ} {e : Event}

theorem single (step : Step w e v) : Path w [⟨e, v⟩] v := .cons step (.nil v)

theorem append (first : Path w ms v) (second : Path v ns u) : Path w (ms ++ ns) u := by
  induction first with
  | nil => exact second
  | cons step _ ih => exact .cons step (ih second)

/-- A path can be cut between any two moments. -/
theorem cut (path : Path w (ms ++ ns) u) : ∃ v, Path w ms v ∧ Path v ns u := by
  induction ms generalizing w with
  | nil => exact ⟨w, .nil w, path⟩
  | cons m ms ih =>
    cases path with
    | cons step rest =>
      obtain ⟨v, first, second⟩ := ih rest
      exact ⟨v, .cons step first, second⟩

/-- What every step preserves holds at the end of a path. -/
theorem preserves {I : World σ → Prop} (hstep : ∀ {w e v}, Step w e v → I w → I v)
    (path : Path w ms v) (hw : I w) : I v := by
  induction path with
  | nil => exact hw
  | cons step _ ih => exact ih (hstep step hw)

theorem preserves_mem {I : World σ → Prop} (hstep : ∀ {w e v}, Step w e v → I w → I v)
    (path : Path w ms v) (hw : I w) (hm : m ∈ ms) : I m.world := by
  induction path with
  | nil => cases hm
  | cons step _ ih =>
    rcases List.mem_cons.mp hm with rfl | hm
    · exact hstep step hw
    · exact ih (hstep step hw) hm

theorem upTo_eq (path : Path w ms v) : w.upTo ms = v := by
  induction path with
  | nil w => rfl
  | cons _ _ ih => exact ih

theorem step_mem (path : Path w ms v) (hm : m ∈ ms) : ∃ u, Step u m.event m.world := by
  induction path with
  | nil => cases hm
  | @cons w v n ms step _ ih =>
    rcases List.mem_cons.mp hm with rfl | hm
    · exact ⟨w, step⟩
    · exact ih hm

theorem last_mem (path : Path w ms v) : v ∈ w :: ms.map Moment.world := by
  induction path with
  | nil w => exact List.mem_cons_self
  | cons _ _ ih => exact List.mem_cons_of_mem _ ih

end Path

namespace World

variable {act : Run (World σ) α} {inner : World σ → List (Moment σ)} {wake : Wake σ}
  {history : DeviceId → Instant → Tag → World σ → List (Moment σ)} {steps : Nat}
  {thread : ThreadId} {limit time : Instant} {p : SyncPoint} {scheduler : Scheduler}

theorem bury_cases (device : DeviceId) (w : World σ) :
    w.burial device = [] ∧ w.bury device = w ∨
      (w.burial device = w.scheduler.queue.filter fun p => p.device == device) ∧
        w.bury device = { w with scheduler := (w.scheduler.cancelAll device).2 } := by
  rw [burial, bury]
  cases w.lifetimes[device]? with
  | none => exact Or.inl ⟨rfl, rfl⟩
  | some l =>
    cases h : (!l.isAlive && l.ownsSyncPoints) with
    | true => exact Or.inr ⟨by simp [h], by simp [h]⟩
    | false => exact Or.inl ⟨by simp [h], by simp [h]⟩

theorem bury_sameTime (device : DeviceId) (w : World σ) :
    w.scheduler.SameTime (w.bury device).scheduler := by
  rcases bury_cases device w with ⟨-, h⟩ | ⟨-, h⟩
  · rw [h]
    exact .refl _
  · rw [h]
    exact Scheduler.sameTime_cancelAll device w.scheduler

theorem release_sameTime (device : DeviceId) (w : World σ) :
    w.scheduler.SameTime (w.release device).scheduler :=
  bury_sameTime device { w with lifetimes := w.lifetimes.modify device fun l =>
    { l with running := l.running - 1 } }

theorem loseHold_path (device : DeviceId) (change : Lifetime → Lifetime) (w : World σ) :
    Path w (w.loseHold device change)
      (({ w with lifetimes := w.lifetimes.modify device change } : World σ).bury device) :=
  .cons (.live w _) (.single (.bury _ device))

private theorem visitHistory_path (device : DeviceId) (h : ∀ v, Path v (inner v) (act.after v)) :
    Path w (w.visitHistory device act inner) ((during device act).after w) := by
  rw [after_during]
  exact .cons (.live w _) ((h _).append (loseHold_path device _ _))

theorem deliverHistory_path
    (h : ∀ device time tag v, Path v (history device time tag v) ((wake device time tag).after v))
    (hdue : w.scheduler.takeDue limit = (some (p, time), scheduler)) :
    Path w (deliverHistory wake history p time { w with scheduler })
      ((deliver wake p time).after { w with scheduler }) := by
  cases halive : w.isAlive p.device with
  | true =>
    have hv : ({ w with scheduler } : World σ).isAlive p.device = true := halive
    have hafter : (deliver wake p time).after { w with scheduler } =
        (during p.device (wake p.device time p.tag)).after { w with scheduler } :=
      Run.after_congr (deliver_of_alive hv)
    rw [deliverHistory, if_pos hv, hafter]
    exact .cons (.wake hdue halive) (visitHistory_path p.device (h _ _ _))
  | false =>
    have hv : ({ w with scheduler } : World σ).isAlive p.device = false := halive
    rw [deliverHistory, if_neg (by simp [hv]), Run.after_of_ok (deliver_of_gone hv)]
    exact .single (.skip hdue halive)

/-- Deliveries are a path of steps if the wake-ups are. -/
theorem dispatchHistory_path
    (h : ∀ device time tag v, Path v (history device time tag v) ((wake device time tag).after v))
    (w : World σ) :
    Path w (dispatchHistory wake history limit steps w) ((dispatch wake limit steps).after w) := by
  induction steps generalizing w with
  | zero => exact .nil w
  | succ steps ih =>
    rcases dispatch_succ wake limit steps w with
      ⟨hn, he⟩ | ⟨p, time, scheduler, v, hd, hp, he⟩ | ⟨p, time, scheduler, halt, v, hd, hp, he⟩
    · rw [dispatchHistory_of_none hn, Run.after_of_ok he]
      exact .nil w
    · have first := deliverHistory_path h hd
      rw [Run.after_of_ok hp] at first
      rw [dispatchHistory_of_ok hd hp, Run.after_congr he]
      exact first.append (ih v)
    · have first := deliverHistory_path h hd
      rw [Run.after_of_error hp] at first
      rw [dispatchHistory_of_error hd hp, Run.after_of_error he]
      exact first

private theorem scheduleDueHistory_path
    (h : ∀ device time tag v, Path v (history device time tag v) ((wake device time tag).after v)) :
    Path w (scheduleDueHistory wake history steps thread limit w)
      ((scheduleDue wake steps thread limit).after w) := by
  have henter : Step w .silent ((onScheduler (Scheduler.enter thread limit)).after w) := by
    rw [after_onScheduler]
    exact .enter w thread limit
  rw [scheduleDueHistory]
  apply Path.cons henter
  cases he : onScheduler (Scheduler.enter thread limit) w with
  | error halt v =>
    rw [Run.after_of_error he, Run.after_of_error (scheduleDue_of_refused he)]
    exact .nil v
  | ok _ v =>
    have hpath : Path v (dispatchHistory wake history limit steps v)
        ((dispatch wake limit steps).after v) := dispatchHistory_path h v
    rw [Run.after_of_ok he]
    apply hpath.append
    cases hd : dispatch wake limit steps v with
    | error halt u =>
      rw [Run.after_of_error hd, Run.after_of_error (scheduleDue_of_halted he hd)]
      exact .single (.leave u)
    | ok _ u =>
      rw [Run.after_of_ok hd, Run.after_of_ok (scheduleDue_of_ok he hd)]
      obtain ⟨scheduler, henter, -⟩ := onScheduler_eq_ok.mp he
      have hlimit : limit ≠ .asap := (Scheduler.enter_eq_ok.mp henter).2.1
      exact .cons (.reach hlimit (takeDue_of_dispatch hd)) (.single (.leave _))

private theorem scheduleHistory_path
    (h : ∀ device time tag v, Path v (history device time tag v) ((wake device time tag).after v)) :
    Path w (scheduleHistory wake history steps thread limit w)
      ((schedule wake steps thread limit).after w) := by
  rw [scheduleHistory]
  cases hi : w.scheduler.isIdleUntil limit with
  | true =>
    have hafter : (schedule wake steps thread limit).after w =
        (onScheduler (Scheduler.idle thread limit)).after w :=
      Run.after_congr (schedule_of_idle hi)
    rw [hafter, after_onScheduler]
    exact .single (.idle thread hi)
  | false =>
    have hafter : (schedule wake steps thread limit).after w =
        (scheduleDue wake steps thread limit).after w := Run.after_congr (schedule_of_due hi)
    rw [hafter]
    exact scheduleDueHistory_path h

end World

/-- A property of histories that the empty one has and that one history after another keeps. -/
structure Cumulative (H : World σ → List (Moment σ) → Prop) : Prop where
  nil : ∀ w, H w []
  append : ∀ {w : World σ} {ms ns : List (Moment σ)}, H w ms → H (w.upTo ms) ns → H w (ms ++ ns)

namespace Cumulative

variable {H : World σ → List (Moment σ) → Prop} (cumulative : Cumulative H)

include cumulative

theorem visitHistory {act : Run (World σ) α} {inner : World σ → List (Moment σ)}
    (device : DeviceId) (hretain : H w [⟨.silent, w.retain device⟩])
    (h : H (w.retain device) (inner (w.retain device)))
    (path : Path (w.retain device) (inner (w.retain device)) (act.after (w.retain device)))
    (hlose : ∀ v, H v (v.loseHold device fun l => { l with running := l.running - 1 })) :
    H w (w.visitHistory device act inner) := by
  have hvisit : H w (⟨.silent, w.retain device⟩ :: inner (w.retain device)) :=
    cumulative.append hretain h
  refine cumulative.append hvisit ?_
  show H ((w.retain device).upTo (inner (w.retain device))) _
  rw [path.upTo_eq]
  exact hlose _

section

variable {wake : Wake σ} {history : DeviceId → Instant → Tag → World σ → List (Moment σ)}
  {steps : Nat} {thread : ThreadId} {limit : Instant}
  (hpath : ∀ device time tag w, Path w (history device time tag w) ((wake device time tag).after w))
  (hdeliver : ∀ {w : World σ} {p : SyncPoint} {time : Instant} {scheduler : Scheduler},
    w.scheduler.takeDue limit = (some (p, time), scheduler) →
      H w (World.deliverHistory wake history p time { w with scheduler }))

include hpath hdeliver

theorem dispatchHistory (w : World σ) : H w (World.dispatchHistory wake history limit steps w) := by
  induction steps generalizing w with
  | zero => exact cumulative.nil w
  | succ steps ih =>
    rcases World.dispatch_succ wake limit steps w with
      ⟨hn, -⟩ | ⟨p, time, scheduler, v, hd, hp, -⟩ | ⟨p, time, scheduler, halt, v, hd, hp, -⟩
    · rw [World.dispatchHistory_of_none hn]
      exact cumulative.nil w
    · rw [World.dispatchHistory_of_ok hd hp]
      refine cumulative.append (hdeliver hd) ?_
      rw [(World.deliverHistory_path hpath hd).upTo_eq, Run.after_of_ok hp]
      exact ih v
    · rw [World.dispatchHistory_of_error hd hp]
      exact hdeliver hd

/-- What each delivery keeps is kept when time is moved if the moves keep it. -/
theorem scheduleHistory
    (hidle : w.scheduler.isIdleUntil limit = true →
      H w [⟨.silent, (World.onScheduler (Scheduler.idle thread limit)).after w⟩])
    (henter : H w [⟨.silent, (World.onScheduler (Scheduler.enter thread limit)).after w⟩])
    (hreach : ∀ v : World σ, limit ≠ .asap → (v.scheduler.takeDue limit).1 = none →
      H v [⟨.silent, { v with scheduler := v.scheduler.reach limit }⟩])
    (hleave : ∀ v : World σ, H v [⟨.silent, { v with scheduler := v.scheduler.leave }⟩]) :
    H w (World.scheduleHistory wake history steps thread limit w) := by
  rw [World.scheduleHistory]
  cases hi : w.scheduler.isIdleUntil limit with
  | true => exact hidle hi
  | false =>
    rw [if_neg Bool.false_ne_true, World.scheduleDueHistory]
    refine cumulative.append henter ?_
    cases he : World.onScheduler (Scheduler.enter thread limit) w with
    | error halt v => exact cumulative.nil _
    | ok _ v =>
      obtain ⟨scheduler, henter, -⟩ := World.onScheduler_eq_ok.mp he
      have hlimit : limit ≠ .asap := (Scheduler.enter_eq_ok.mp henter).2.1
      rw [World.upTo, World.upTo, Run.after_of_ok he]
      refine cumulative.append (cumulative.dispatchHistory hpath hdeliver v) ?_
      rw [(World.dispatchHistory_path hpath v).upTo_eq]
      cases hd : World.dispatch wake limit steps v with
      | error halt u =>
        rw [Run.after_of_error hd]
        exact hleave u
      | ok _ u =>
        rw [Run.after_of_ok hd]
        exact cumulative.append (hreach u hlimit (World.takeDue_of_dispatch hd)) (hleave _)

end

end Cumulative

/-- The history of a program leads step by step to the world that it leaves behind. -/
theorem Program.path (p : Program σ α) (w : World σ) : Path w (p.history w) (p.after w) := by
  induction p generalizing w with
  | done a => exact .nil w
  | halt cause => exact .nil w
  | andThen p next ihp ihnext =>
    have first := ihp w
    rw [history]
    rcases Run.ok_or_error p.run w with ⟨a, hp⟩ | ⟨halt, hp⟩
    · rw [after_andThen_of_ok hp, hp]
      exact first.append (ihnext a _)
    · rw [after_andThen_of_error hp, hp, List.append_nil]
      exact first
  | attempt p ih =>
    rw [after, run, Run.after_attempt]
    exact ih w
  | look f => exact .nil w
  | work act =>
    rw [after, run, history, World.after_onDevices]
    exact .single (.work w _)
  | ask device demand act =>
    rw [after, run, history, World.after_onDevices]
    exact .single (.ask w device demand _)
  | enroll ownsSyncPoints => exact .single (.live w _)
  | drop device =>
    rw [after, run, history]
    cases ho : w.isOwned device with
    | true =>
      rw [Run.after_of_ok (World.drop_of_owned ho)]
      exact World.loseHold_path device _ w
    | false =>
      rw [Run.after_of_ok (World.drop_of_not_owned ho)]
      exact .nil w
  | visit device p ih =>
    rw [history]
    cases ha : w.isAlive device with
    | true =>
      rw [after_visit_of_alive ha]
      exact World.visitHistory_path device ih
    | false =>
      rw [after_visit_of_gone ha]
      exact .nil w
  | register time device tag =>
    rw [after, run, history]
    cases hr : w.scheduler.register time device tag with
    | ok scheduler =>
      rw [Run.after_of_ok (World.register_of_ok hr)]
      exact .single (.register hr)
    | error cause =>
      rw [Run.after_of_error (World.register_of_error hr)]
      exact .nil w
  | cancel device tag =>
    rw [after, run, history, Run.after_of_ok (World.cancel_apply device tag w)]
    cases hf : w.scheduler.find? device tag with
    | some p => exact .single (.cancel hf)
    | none =>
      rw [Scheduler.cancel_of_none hf]
      exact .nil w
  | cancelAll device =>
    rw [after, run, history, Run.after_of_ok (World.cancelAll_apply device w)]
    exact .single (.cancelAll w device)
  | setCurrentTime thread time =>
    rw [after, run, history, World.after_onScheduler]
    exact .single (.setCurrentTime w thread time)
  | schedule wake steps thread limit ih =>
    exact World.scheduleHistory_path ih

theorem Cumulative.andThen {β : Type} {H : World σ → List (Moment σ) → Prop}
    (cumulative : Cumulative H) {p : Program σ α} {next : α → Program σ β}
    (h : H w (p.history w)) (hnext : ∀ a v, H v ((next a).history v)) :
    H w ((Program.andThen p next).history w) := by
  rw [Program.history]
  refine cumulative.append h ?_
  rw [(p.path w).upTo_eq]
  cases hp : p.run w with
  | ok a v =>
    rw [Program.after, Run.after_of_ok hp]
    exact hnext a v
  | error halt v => exact cumulative.nil _

theorem Program.path_upTo (p : Program σ α) {past future : List (Moment σ)}
    (h : p.history w = past ++ future) :
    Path w past (w.upTo past) ∧ Path (w.upTo past) future (p.after w) := by
  have path := p.path w
  rw [h] at path
  obtain ⟨v, first, second⟩ := path.cut
  rw [first.upTo_eq]
  exact ⟨first, second⟩

/-- What every step preserves holds in every world that a program passes through. -/
theorem Program.worlds_preserve {p : Program σ α} {I : World σ → Prop}
    (hstep : ∀ {w e v}, Step w e v → I w → I v) (hv : v ∈ p.worlds w) (hw : I w) : I v := by
  rcases List.mem_cons.mp hv with rfl | hv
  · exact hw
  · obtain ⟨m, hm, rfl⟩ := List.mem_map.mp hv
    exact (p.path w).preserves_mem hstep hw hm

theorem Program.after_mem_worlds (p : Program σ α) (w : World σ) : p.after w ∈ p.worlds w :=
  (p.path w).last_mem

end Timebase
