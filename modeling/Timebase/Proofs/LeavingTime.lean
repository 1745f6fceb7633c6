import Timebase.Proofs.Moving
import Timebase.Proofs.Wanted

/-!
# Time under devices that leave it alone

A program that leaves time alone has no moment at which time moves or is set. One that only never
sets it may still have it moved, but not from within a wake-up. So where all devices are such, a call
to move time to a limit moves it there and no further.
-/

namespace Timebase

variable {σ α : Type} {w v u : World σ}

theorem Scheduler.SameTime.trans {s s' s'' : Scheduler} (h : s.SameTime s') (h' : s'.SameTime s'') :
    s.SameTime s'' :=
  ⟨h'.currentTime.trans h.currentTime, h'.owner.trans h.owner,
    h'.dispatching.trans h.dispatching⟩

/-- At no moment of a history time moves or is set. -/
def Timeless (w : World σ) (ms : List (Moment σ)) : Prop :=
  ∀ m ∈ ms, m.event ≠ .timeSet ∧ w.scheduler.SameTime m.world.scheduler

namespace Timeless

variable {ms ns : List (Moment σ)} {e : Event}

theorem single (he : e ≠ .timeSet) (h : w.scheduler.SameTime v.scheduler) :
    Timeless w [⟨e, v⟩] := List.forall_mem_singleton.mpr ⟨he, h⟩

theorem upTo (h : Timeless w ms) (hv : w.scheduler.SameTime v.scheduler) :
    w.scheduler.SameTime (v.upTo ms).scheduler := by
  induction ms generalizing v with
  | nil => exact hv
  | cons m ms ih =>
    obtain ⟨hm, hms⟩ := List.forall_mem_cons.mp h
    exact ih hms hm.2

theorem cumulative : Cumulative (Timeless (σ := σ)) where
  nil _ := List.forall_mem_nil _
  append h h' := List.forall_mem_append.mpr
    ⟨h, fun m hm => ⟨(h' m hm).1, (h.upTo (.refl _)).trans (h' m hm).2⟩⟩

theorem sameTime (h : Timeless w ms) (path : Path w ms v) : w.scheduler.SameTime v.scheduler := by
  rw [← path.upTo_eq]
  exact h.upTo (.refl _)

theorem loseHold (device : DeviceId) (change : Lifetime → Lifetime) (w : World σ) :
    Timeless w (w.loseHold device change) := by
  have hchange : Timeless w
      [⟨.silent, { w with lifetimes := w.lifetimes.modify device change }⟩] :=
    .single Event.noConfusion (.refl _)
  exact cumulative.append hchange (.single Event.noConfusion (World.bury_sameTime device _))

theorem visitHistory {act : Run (World σ) α} {inner : World σ → List (Moment σ)}
    (device : DeviceId) (h : Timeless (w.retain device) (inner (w.retain device)))
    (path : Path (w.retain device) (inner (w.retain device)) (act.after (w.retain device))) :
    Timeless w (w.visitHistory device act inner) :=
  cumulative.visitHistory device (.single Event.noConfusion (.refl _)) h path (.loseHold device _)

end Timeless

theorem Program.LeavesTime.timeless {p : Program σ α} (h : p.LeavesTime) (w : World σ) :
    Timeless w (p.history w) := by
  have cumulative := Timeless.cumulative (σ := σ)
  induction p generalizing w with
  | done a | halt cause | look f => exact cumulative.nil w
  | andThen p next ihp ihnext => exact cumulative.andThen (ihp h.1 w) fun a v => ihnext a (h.2 a) v
  | attempt p ih => exact ih h w
  | work act | ask _ _ act =>
    exact .single Event.noConfusion (World.after_onDevices act w ▸ .refl _)
  | enroll ownsSyncPoints => exact .single Event.noConfusion (.refl _)
  | drop device =>
    rw [history]
    split
    · exact .loseHold device _ w
    · exact cumulative.nil w
  | visit device p ih =>
    rw [history]
    split
    · exact .visitHistory device (ih h _) (p.path _)
    · exact cumulative.nil w
  | register time device tag =>
    rw [history]
    cases hr : w.scheduler.register time device tag with
    | ok scheduler => exact .single Event.noConfusion (Scheduler.sameTime_register hr)
    | error cause => exact cumulative.nil w
  | cancel device tag =>
    rw [history]
    split
    · exact .single Event.noConfusion (Scheduler.sameTime_cancel device tag w.scheduler)
    · exact cumulative.nil w
  | cancelAll device =>
    exact .single Event.noConfusion (Scheduler.sameTime_cancelAll device w.scheduler)
  | setCurrentTime | schedule => exact h.elim

theorem Program.LeavesTime.sameTime {p : Program σ α} (h : p.LeavesTime) (w : World σ) :
    w.scheduler.SameTime (p.after w).scheduler := (h.timeless w).sameTime (p.path w)

/-- Nobody sets the time in a history. -/
def Unset (ms : List (Moment σ)) : Prop := ∀ m ∈ ms, m.event ≠ .timeSet

theorem Unset.single {e : Event} (h : e ≠ .timeSet) : Unset [⟨e, v⟩] :=
  List.forall_mem_singleton.mpr h

theorem Unset.cumulative : Cumulative fun (_ : World σ) ms => Unset ms where
  nil _ := List.forall_mem_nil _
  append h h' := List.forall_mem_append.mpr ⟨h, h'⟩

theorem Timeless.unset {ms : List (Moment σ)} (h : Timeless w ms) : Unset ms :=
  fun m hm => (h m hm).1

/-- A program that never sets the time. It may have it moved. -/
def Program.NeverSets {α : Type} : Program σ α → Prop
  | .andThen p next => p.NeverSets ∧ ∀ a, (next a).NeverSets
  | .attempt p => p.NeverSets
  | .visit _ p => p.NeverSets
  | .setCurrentTime _ _ => False
  | .schedule react _ _ _ => ∀ device time tag, (react device time tag).NeverSets
  | _ => True

theorem Program.LeavesTime.neverSets {p : Program σ α} (h : p.LeavesTime) : p.NeverSets := by
  induction p with
  | andThen p next ihp ihnext => exact ⟨ihp h.1, fun a => ihnext a (h.2 a)⟩
  | attempt p ih | visit device p ih => exact ih h
  | setCurrentTime | schedule => exact h.elim
  | _ => trivial

namespace World

variable {react : Reaction σ} {steps : Nat} {thread : ThreadId} {limit time : Instant}
  {p : SyncPoint}

private theorem loseHold_unset (device : DeviceId) (change : Lifetime → Lifetime) (w : World σ) :
    Unset (w.loseHold device change) := (Timeless.loseHold device change w).unset

private theorem visitHistory_unset {p : Program σ α} (device : DeviceId)
    (h : Unset (p.history (w.retain device))) :
    Unset (w.visitHistory device p.run p.history) :=
  Unset.cumulative.visitHistory device (.single Event.noConfusion) h (p.path _)
    (loseHold_unset device _)

private theorem deliverHistory_unset
    (h : ∀ device time tag w, Unset ((react device time tag).history w)) (p : SyncPoint)
    (time : Instant) (w : World σ) :
    Unset (deliverHistory react.wake (fun device time tag => (react device time tag).history) p
      time w) := by
  rw [deliverHistory]
  split
  · exact List.forall_mem_cons.mpr ⟨Event.noConfusion, visitHistory_unset p.device (h _ _ _ _)⟩
  · exact .single Event.noConfusion

end World

/-- Where no program does so, nobody sets the time in a history. -/
theorem Program.NeverSets.unset {p : Program σ α} (h : p.NeverSets) (w : World σ) :
    Unset (p.history w) := by
  have cumulative := Unset.cumulative (σ := σ)
  induction p generalizing w with
  | done a | halt cause | look f => exact List.forall_mem_nil _
  | andThen p next ihp ihnext => exact cumulative.andThen (ihp h.1 w) fun a v => ihnext a (h.2 a) v
  | attempt p ih => exact ih h w
  | work act | ask _ _ act | enroll ownsSyncPoints | cancelAll device =>
    exact .single Event.noConfusion
  | drop device =>
    rw [history]
    split
    · exact World.loseHold_unset device _ w
    · exact List.forall_mem_nil _
  | visit device p ih =>
    rw [history]
    split
    · exact World.visitHistory_unset device (ih h _)
    · exact List.forall_mem_nil _
  | register time device tag | cancel device tag =>
    rw [history]
    split
    · exact .single Event.noConfusion
    · exact List.forall_mem_nil _
  | setCurrentTime => exact h.elim
  | schedule react steps thread limit ih =>
    exact cumulative.scheduleHistory (fun device time tag => (react device time tag).path)
      (fun _ => World.deliverHistory_unset (fun device time tag => ih _ _ _ (h _ _ _)) _ _ _)
      (fun _ => .single Event.noConfusion) (.single Event.noConfusion)
      (fun _ _ _ => .single Event.noConfusion) fun _ => .single Event.noConfusion

theorem Program.NeverSets.stands {p : Program σ α} (h : p.NeverSets)
    (hw : w.scheduler.dispatching = true) :
    (p.after w).scheduler.currentTime = w.scheduler.currentTime := by
  rcases (p.history_aside hw).time with htime | ⟨m, hm, hset, -⟩
  · rwa [(p.path w).upTo_eq] at htime
  · exact absurd hset (h.unset w m hm)

namespace World

variable {react : Reaction σ} {steps : Nat} {thread : ThreadId} {limit time : Instant}
  {p : SyncPoint}

theorem schedule_unset (h : react.LeavesTime) (steps : Nat) (thread : ThreadId) (limit : Instant)
    (w : World σ) : Unset ((Program.schedule react steps thread limit).history w) := by
  have hnever : (Program.schedule react steps thread limit).NeverSets :=
    fun device time tag => (h device time tag).neverSets
  exact hnever.unset w

private theorem stands_deliver (h : ∀ device time tag, (react device time tag).NeverSets)
    (hw : w.scheduler.dispatching = true) (hp : deliver react.wake p time w = .ok () v) :
    v.scheduler.currentTime = w.scheduler.currentTime ∧ v.scheduler.dispatching = true := by
  cases ha : w.isAlive p.device with
  | true =>
    rw [deliver_of_alive ha] at hp
    have hv := after_during p.device (react.wake p.device time p.tag) w
    rw [Run.after_of_ok hp] at hv
    have hrelease := release_sameTime p.device ((react p.device time p.tag).after (w.retain p.device))
    have hstands := (h p.device time p.tag).stands (w := w.retain p.device) hw
    have hmark := (react p.device time p.tag).keepsMark (w.retain p.device)
    rw [hv]
    exact ⟨hrelease.currentTime.trans hstands, hrelease.dispatching.trans (hmark.trans hw)⟩
  | false =>
    rw [deliver_of_gone ha] at hp
    cases hp
    exact ⟨rfl, hw⟩

/-- Time comes to stand at the limit to which it is moved, unless that has passed. -/
theorem later_of_schedule (hreact : ∀ device time tag, (react device time tag).NeverSets)
    (ht : w.scheduler.currentTime ≠ .asap)
    (h : schedule react.wake steps thread limit w = .ok () v) :
    v.scheduler.currentTime = w.scheduler.currentTime.later limit := by
  obtain ⟨hl, ⟨-, rfl⟩ | ⟨u, hd, -, rfl⟩⟩ := schedule_eq_ok h
  · rfl
  · refine (dispatch_keeps (I := fun u => u.scheduler.dispatching = true ∧
      u.scheduler.currentTime ≠ .asap ∧
        u.scheduler.currentTime.later limit = w.scheduler.currentTime.later limit) ?_ hd
      ⟨rfl, ht, rfl⟩).2.2
    intro u v p t s ⟨hmark, hu, hlater⟩ htake hdeliver
    obtain ⟨rest, -, hdue, rfl, hs⟩ := Scheduler.takeDue_eq_some.mp htake
    have hmarked : s.dispatching = true := (Scheduler.takeDue_dispatching htake).trans hmark
    obtain ⟨hstands, hmark'⟩ := stands_deliver hreact hmarked hdeliver
    have hnow : v.scheduler.currentTime = u.scheduler.deliveryTime p := by
      rw [hstands, hs]
    have hne := Scheduler.deliveryTime_ne_asap (p := p) hu
    refine ⟨hmark', hnow ▸ hne, ?_⟩
    rw [hnow, ← hlater]
    -- a delivery back in time leaves it where it is, and any other one is within the limit
    by_cases hpast : u.scheduler.currentTime ≤ limit
    · rw [Instant.later_of_le hl hne (Scheduler.deliveryTime_le hdue hpast),
        Instant.later_of_le hl hu hpast]
    · have hback : p.time < u.scheduler.currentTime :=
        Instant.lt_of_le_of_lt hdue (Instant.not_le.mp hpast)
      rw [Scheduler.deliveryTime, if_pos hback, ite_self]

theorem currentTime_of_schedule (hreact : react.LeavesTime)
    (ht : w.scheduler.currentTime ≠ .asap) (hle : w.scheduler.currentTime ≤ limit)
    (h : schedule react.wake steps thread limit w = .ok () v) :
    v.scheduler.currentTime = limit := by
  rw [later_of_schedule (fun _ _ _ => (hreact _ _ _).neverSets) ht h]
  exact Instant.later_of_le (schedule_eq_ok h).1 ht hle

end World
end Timebase
