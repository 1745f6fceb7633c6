import Timebase.Proofs.Operations

/-!
# What operations leave alone

Operations on time leave the pending sync points alone, and operations on sync points leave time,
its owner and the mark of a delivery under way alone.
-/

namespace Timebase.Scheduler

variable {s s' : Scheduler} {thread : ThreadId} {t limit time : Instant} {device : DeviceId}
  {tag : Tag}

/-- Nothing is registered or taken between two states. -/
structure SamePending (s s' : Scheduler) : Prop where
  pending : s'.pending = s.pending
  nextKey : s'.nextKey = s.nextKey

theorem SamePending.queue (h : SamePending s s') : s'.queue = s.queue :=
  congrArg Pending.queue h.pending

theorem SamePending.nextSeq (h : SamePending s s') : s'.nextSeq = s.nextSeq :=
  congrArg Pending.nextSeq h.pending

theorem samePending_setCurrentTime (thread : ThreadId) (t : Instant) (s : Scheduler) :
    SamePending s ((setCurrentTime thread t).after s) := by
  rcases setCurrentTime_after thread t s with h | ⟨-, h | ⟨-, h⟩⟩
  all_goals
    rw [h]
    exact ⟨rfl, rfl⟩

theorem samePending_idle (thread : ThreadId) (limit : Instant) (s : Scheduler) :
    SamePending s ((idle thread limit).after s) := by
  rcases idle_after thread limit s with h | ⟨-, h | h⟩
  all_goals
    rw [h]
    exact ⟨rfl, rfl⟩

theorem samePending_enter (thread : ThreadId) (limit : Instant) (s : Scheduler) :
    SamePending s ((enter thread limit).after s) := by
  rcases enter_after thread limit s with h | ⟨-, h | h⟩
  all_goals
    rw [h]
    exact ⟨rfl, rfl⟩

theorem samePending_reach (limit : Instant) (s : Scheduler) : SamePending s (s.reach limit) :=
  ⟨rfl, rfl⟩

theorem samePending_leave (s : Scheduler) : SamePending s s.leave := ⟨rfl, rfl⟩

theorem samePending_enteredBy (thread : ThreadId) (s : Scheduler) :
    SamePending s (s.enteredBy thread) := ⟨rfl, rfl⟩

/-- Time stands still between two states, under the same owner. -/
structure SameTime (s s' : Scheduler) : Prop where
  currentTime : s'.currentTime = s.currentTime
  owner : s'.owner = s.owner
  dispatching : s'.dispatching = s.dispatching

theorem SameTime.refl (s : Scheduler) : SameTime s s := ⟨rfl, rfl, rfl⟩

theorem sameTime_register (h : s.register time device tag = .ok s') : SameTime s s' := by
  obtain ⟨-, rfl⟩ := register_eq_ok.mp h
  exact ⟨rfl, rfl, rfl⟩

theorem sameTime_cancel (device : DeviceId) (tag : Tag) (s : Scheduler) :
    SameTime s (s.cancel device tag).2 := by
  cases hf : s.find? device tag with
  | some p =>
    rw [cancel_of_found hf]
    exact ⟨rfl, rfl, rfl⟩
  | none =>
    rw [cancel_of_none hf]
    exact .refl s

theorem sameTime_cancelAll (device : DeviceId) (s : Scheduler) :
    SameTime s (s.cancelAll device).2 := by
  rcases cancelAll_cases device s with h | ⟨-, h⟩
  · rw [h]
    exact ⟨rfl, rfl, rfl⟩
  · rw [h]
    exact .refl s

end Timebase.Scheduler
