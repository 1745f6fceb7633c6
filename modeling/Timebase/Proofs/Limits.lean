import Timebase.Proofs.Punctuality

/-!
# Time within its limits

Time never goes further than it is asked to: as long as every call that moves or sets it names an
instant before a bound, it stands before that bound at every moment of every run.
-/

namespace Timebase

variable {σ α : Type} {w v u : World σ} {bound limit time : Instant}

namespace Scheduler

variable {s s' : Scheduler} {thread : ThreadId} {p : SyncPoint}

theorem SameTime.lt (h : s.SameTime s') (hs : s.currentTime < bound) : s'.currentTime < bound := by
  rw [h.currentTime]
  exact hs

theorem setCurrentTime_lt (thread : ThreadId) (ht : time < bound) (hs : s.currentTime < bound) :
    ((setCurrentTime thread time).after s).currentTime < bound := by
  rcases setCurrentTime_after thread time s with h | ⟨-, h | ⟨-, h⟩⟩
  all_goals rw [h]
  · exact hs
  · exact hs
  · exact ht

theorem idle_lt (thread : ThreadId) (hl : limit < bound) (hs : s.currentTime < bound) :
    ((idle thread limit).after s).currentTime < bound := by
  rcases idle_after thread limit s with h | ⟨-, h | h⟩
  all_goals rw [h]
  · exact hs
  · exact hs
  · exact Instant.later_lt hs hl

theorem enter_lt (thread : ThreadId) (limit : Instant) (hs : s.currentTime < bound) :
    ((enter thread limit).after s).currentTime < bound := by
  rcases enter_after thread limit s with h | ⟨-, h | h⟩
  all_goals
    rw [h]
    exact hs

/-- What is delivered takes time no further than the limit up to which it was due. -/
theorem takeDue_lt (h : s.takeDue limit = (some (p, time), s')) (hl : limit < bound)
    (hs : s.currentTime < bound) : s'.currentTime < bound ∧ time < bound := by
  obtain ⟨rest, -, hdue, rfl, rfl⟩ := takeDue_eq_some.mp h
  have hdelivery : s.deliveryTime p < bound := by
    rw [deliveryTime]
    split
    · exact hs
    · split
      · exact hs
      · exact Instant.lt_of_le_of_lt hdue hl
  exact ⟨hdelivery, hdelivery⟩

end Scheduler

/-- A history on which time stays before a bound that it stood before in the beginning. -/
def StaysBefore (bound : Instant) (w : World σ) (ms : List (Moment σ)) : Prop :=
  w.scheduler.currentTime < bound → ∀ m ∈ ms, m.world.scheduler.currentTime < bound

namespace StaysBefore

variable {ms : List (Moment σ)} {e : Event}

theorem single (h : w.scheduler.currentTime < bound → v.scheduler.currentTime < bound) :
    StaysBefore bound w [⟨e, v⟩] := fun hw => List.forall_mem_singleton.mpr (h hw)

theorem of_sameTime (h : w.scheduler.SameTime v.scheduler) : StaysBefore bound w [⟨e, v⟩] :=
  single h.lt

theorem upTo (h : StaysBefore bound w ms) (hw : w.scheduler.currentTime < bound) :
    (w.upTo ms).scheduler.currentTime < bound := by
  induction ms generalizing w with
  | nil => exact hw
  | cons m ms ih =>
    obtain ⟨hm, hms⟩ := List.forall_mem_cons.mp (h hw)
    exact ih (fun _ => hms) hm

theorem cumulative (bound : Instant) : Cumulative (StaysBefore (σ := σ) bound) where
  nil _ _ := List.forall_mem_nil _
  append h h' hw := List.forall_mem_append.mpr ⟨h hw, h' (h.upTo hw)⟩

theorem loseHold (device : DeviceId) (change : Lifetime → Lifetime) (w : World σ) :
    StaysBefore bound w (w.loseHold device change) := by
  have hchange : StaysBefore bound w
      [⟨.silent, { w with lifetimes := w.lifetimes.modify device change }⟩] :=
    .of_sameTime (.refl _)
  exact (cumulative bound).append hchange (.of_sameTime (World.bury_sameTime device _))

end StaysBefore

/-- A program that moves and sets time to instants before a bound only, and that has devices do the
same when they are woken before it. -/
def Program.MovesBefore (bound : Instant) {α : Type} : Program σ α → Prop
  | .done _ | .halt _ | .look _ | .work _ | .ask _ _ _ | .enroll _ | .drop _ => True
  | .register _ _ _ | .cancel _ _ | .cancelAll _ => True
  | .andThen p next => p.MovesBefore bound ∧ ∀ a, (next a).MovesBefore bound
  | .attempt p => p.MovesBefore bound
  | .visit _ p => p.MovesBefore bound
  | .setCurrentTime _ time => time < bound
  | .schedule wake _ _ limit =>
    limit < bound ∧ ∀ device time tag, time < bound → (wake device time tag).MovesBefore bound

namespace World

variable {wake : Wake σ} {history : DeviceId → Instant → Tag → World σ → List (Moment σ)}
  {p : SyncPoint} {scheduler : Scheduler}

theorem deliverHistory_staysBefore
    (hpath : ∀ device time tag w,
      Path w (history device time tag w) ((wake device time tag).after w))
    (h : ∀ device time tag, time < bound → ∀ w, StaysBefore bound w (history device time tag w))
    (hl : limit < bound) (hd : w.scheduler.takeDue limit = (some (p, time), scheduler)) :
    StaysBefore bound w (deliverHistory wake history p time { w with scheduler }) := by
  intro hw
  obtain ⟨hs, htime⟩ := Scheduler.takeDue_lt hd hl hw
  rw [deliverHistory]
  split
  · have hvisit : StaysBefore bound { w with scheduler }
        (visitHistory p.device (wake p.device time p.tag) (history p.device time p.tag)
          { w with scheduler }) :=
      (StaysBefore.cumulative bound).visitHistory p.device (.of_sameTime (.refl _))
        (h _ _ _ htime _) (hpath _ _ _ _) (.loseHold _ _)
    exact List.forall_mem_cons.mpr ⟨hs, hvisit hs⟩
  · exact List.forall_mem_singleton.mpr hs

end World

theorem Program.MovesBefore.staysBefore {p : Program σ α} (h : p.MovesBefore bound) (w : World σ) :
    StaysBefore bound w (p.history w) := by
  have cumulative := StaysBefore.cumulative (σ := σ) bound
  induction p generalizing w with
  | done a | halt cause | look f => exact cumulative.nil w
  | andThen p next ihp ihnext => exact cumulative.andThen (ihp h.1 w) fun a v => ihnext a (h.2 a) v
  | attempt p ih => exact ih h w
  | work act | ask _ _ act => exact .of_sameTime (World.after_onDevices act w ▸ .refl _)
  | enroll ownsSyncPoints => exact .of_sameTime (.refl _)
  | drop device =>
    rw [history]
    split
    · exact .loseHold device _ w
    · exact cumulative.nil w
  | visit device p ih =>
    rw [history]
    split
    · exact cumulative.visitHistory device (.of_sameTime (.refl _)) (ih h _) (p.path _)
        (.loseHold device _)
    · exact cumulative.nil w
  | register time device tag =>
    rw [history]
    cases hr : w.scheduler.register time device tag with
    | ok scheduler => exact .of_sameTime (Scheduler.sameTime_register hr)
    | error cause => exact cumulative.nil w
  | cancel device tag =>
    rw [history]
    split
    · exact .of_sameTime (Scheduler.sameTime_cancel device tag w.scheduler)
    · exact cumulative.nil w
  | cancelAll device => exact .of_sameTime (Scheduler.sameTime_cancelAll device w.scheduler)
  | setCurrentTime thread time =>
    refine .single ?_
    rw [World.after_onScheduler]
    exact Scheduler.setCurrentTime_lt thread h
  | schedule wake steps thread limit ih =>
    obtain ⟨hl, hwake⟩ := h
    refine cumulative.scheduleHistory (fun device time tag => (wake device time tag).path)
      (World.deliverHistory_staysBefore (fun device time tag => (wake device time tag).path)
        (fun device time tag htime => ih device time tag (hwake device time tag htime)) hl)
      (fun _ => .single ?_) (.single ?_) (fun v _ _ => .single fun hv => Instant.later_lt hv hl)
      fun _ => .single id
    · rw [World.after_onScheduler]
      exact Scheduler.idle_lt thread hl
    · rw [World.after_onScheduler]
      exact Scheduler.enter_lt thread limit

/-- Time stays before a bound that no call goes to. -/
theorem Program.MovesBefore.worlds_lt {p : Program σ α} (h : p.MovesBefore bound)
    (hw : w.scheduler.currentTime < bound) (hv : v ∈ p.worlds w) :
    v.scheduler.currentTime < bound := by
  rcases List.mem_cons.mp hv with rfl | hv
  · exact hw
  · obtain ⟨m, hm, rfl⟩ := List.mem_map.mp hv
    exact h.staysBefore w hw m hm

end Timebase
