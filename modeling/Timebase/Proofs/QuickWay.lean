import Timebase.Proofs.Slicing

/-!
# The quick way of moving time

When the key kept beside the queue says that nothing is due, time is moved without a look at the
queue and without the mark of a delivery. Nobody can tell: what comes out is what the long way
would have left behind, also for those who are turned away.
-/

namespace Timebase

variable {σ α : Type} {w w₀ v : World σ}

namespace World

variable {wake : Wake σ} {history : DeviceId → Instant → Tag → World σ → List (Moment σ)}
  {steps : Nat} {thread : ThreadId} {limit : Instant}

/-- The long way takes nothing either where the quick one is open. -/
theorem dispatchHistory_of_isIdleUntil (hs : w.scheduler.Sound)
    (hi : w.scheduler.isIdleUntil limit = true)
    (hv : onScheduler (Scheduler.enter thread limit) w = .ok () v) :
    dispatchHistory wake history limit (steps + 1) v = [] := by
  obtain ⟨s, henter, rfl⟩ := onScheduler_eq_ok.mp hv
  obtain ⟨-, -, -, rfl⟩ := Scheduler.enter_eq_ok.mp henter
  apply dispatchHistory_of_none
  rw [hs.takeDue_of_isIdleUntil hi thread]

/-- Both ways of moving time take the same sync points and tell their devices the same. -/
theorem gather_scheduleHistory {β : Type} {f : Event → List β} (hf : f .silent = [])
    (hs : w.scheduler.Sound) :
    gather f (scheduleHistory wake history (steps + 1) thread limit w) =
      gather f (scheduleDueHistory wake history (steps + 1) thread limit w) := by
  rw [scheduleHistory]
  cases hi : w.scheduler.isIdleUntil limit with
  | false => rfl
  | true =>
    rw [if_pos rfl, scheduleDueHistory]
    cases he : onScheduler (Scheduler.enter thread limit) w with
    | error halt v => simp only [gather, List.flatMap_cons, List.flatMap_nil, hf]
    | ok _ v =>
      have hnone : dispatchHistory wake history limit (steps + 1) v = [] :=
        dispatchHistory_of_isIdleUntil hs hi he
      simp only [gather, hnone, List.nil_append, List.flatMap_cons, List.flatMap_nil, hf]
      cases dispatch wake limit (steps + 1) v <;> simp [hf]

end World

/-- In every world that a run passes through, also within a wake-up, a call to move time comes out
the same whether the kept key is looked at first or not: the same result or the same fault, the same
world left behind, the same calls to devices and the same sync points taken on the way. -/
theorem quick_way_makes_no_difference {t : Instant} (h₀ : w₀.scheduler = Scheduler.start t)
    (p : Program σ α) (hw : w ∈ p.worlds w₀) (steps : Nat) (thread : ThreadId) (limit : Instant) :
    (∀ wake : Wake σ, World.schedule wake (steps + 1) thread limit w =
      World.scheduleDue wake (steps + 1) thread limit w) ∧
    ∀ react : Reaction σ,
      let quick := (Program.schedule react (steps + 1) thread limit).history w
      let long := World.scheduleDueHistory react.wake
        (fun device time tag => (react device time tag).history) (steps + 1) thread limit w
      calls quick = calls long ∧ gather Event.taken quick = gather Event.taken long := by
  have hs := Program.worlds_sound h₀ hw
  refine ⟨fun wake => World.schedule_eq_scheduleDue hs, ?_⟩
  intro react
  exact ⟨World.gather_scheduleHistory rfl hs, World.gather_scheduleHistory rfl hs⟩

/-- The world in which the first of two wake-ups is under way. -/
def duringTheFirst : World Unit :=
  let w := twoPending.after (.ofScheduler .new ())
  w.upTo (((Program.schedule askingAgain 4 0 (.wrap 9)).history w).take 2)

theorem quick_way_makes_no_difference_within :
    World.scheduleDue askingAgain.wake 1 0 (.wrap 4) duringTheFirst =
      .error (.fault (.violated .reentered)) duringTheFirst := by
  have h₀ : (World.ofScheduler .new () : World Unit).scheduler = .start .zero := rfl
  have hw : duringTheFirst ∈ (Program.andThen twoPending fun _ =>
      .schedule askingAgain 4 0 (.wrap 9)).worlds (.ofScheduler .new ()) :=
    List.mem_of_getElem? (i := 5) rfl
  have h := quick_way_makes_no_difference h₀ _ hw 0 0 (.wrap 4)
  rw [← h.1]
  rfl

end Timebase
