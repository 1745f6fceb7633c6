import Timebase.Proofs.DispatchOrder

/-!
# Calls that come to their end

What is pending stays so until it is taken back or taken for delivery. So a call to move time that
comes to its end has taken all that was due, once and in order.
-/

namespace Timebase

variable {σ α : Type} {w v : World σ} {ms : List (Moment σ)} {r : SyncPoint}

theorem count_taken (ms : List (Moment σ)) (r : SyncPoint) :
    (gather Event.taken ms).count r =
      (gather Event.delivered ms).count r + (gather Event.passedOver ms).count r := by
  induction ms with
  | nil => rfl
  | cons m ms ih =>
    simp only [gather, Event.taken, List.flatMap_cons, List.count_append] at ih ⊢
    omega

namespace Path

theorem mem_queue (path : Path w ms v) (hseq : r.seq < w.scheduler.nextSeq)
    (hr : r ∈ v.scheduler.queue) : r ∈ w.scheduler.queue := by
  induction path with
  | nil => exact hr
  | @cons w v m ms step _ ih =>
    have hnext := step.numbered.1
    rcases step.mem_queue (ih (by omega) hr) with hw | he
    · exact hw
    · exact absurd (step.entered_seq he).1 (Nat.not_le.mpr hseq)

/-- What is pending stays so until it is taken back or taken for delivery, once and for all. -/
theorem pending_once (path : Path w ms v) (hr : r ∈ w.scheduler.queue) :
    v.scheduler.queue.count r + (gather Event.takenBack ms).count r +
      (gather Event.taken ms).count r = 1 := by
  have hbalance := path.balance r
  have hpending : w.scheduler.queue.count r = 1 := by
    rw [w.scheduler.nodup_queue.count, if_pos hr]
  have hentered : (gather Event.entered ms).count r = 0 := by
    apply List.count_eq_zero.mpr
    intro he
    obtain ⟨k, hk⟩ := Tells.of_mem_gather he
    exact absurd (w.scheduler.seq_lt_nextSeq hr) (Nat.not_lt.mpr (path.entered_seq hk))
  have htaken := count_taken ms r
  omega

theorem sublist_taken {m : Moment σ} (step : Step w m.event m.world) (rest : Path m.world ms v) :
    ((gather Event.taken ms).filter (· ∈ w.scheduler.queue)).Sublist
      ((gather Event.taken ms).filter (· ∈ m.world.scheduler.queue)) := by
  have hnext := step.numbered.1
  have hkept : ∀ r ∈ gather Event.taken ms, r ∈ w.scheduler.queue →
      r ∈ m.world.scheduler.queue := by
    intro r hr hw
    obtain ⟨k, hk⟩ := Tells.of_mem_gather hr
    have hfresh := w.scheduler.seq_lt_nextSeq hw
    exact rest.mem_queue_of_taken (by omega) hk
  have hboth : (gather Event.taken ms).filter (· ∈ w.scheduler.queue) =
      ((gather Event.taken ms).filter (· ∈ m.world.scheduler.queue)).filter
        (· ∈ w.scheduler.queue) := by
    rw [List.filter_filter]
    apply List.filter_congr
    intro r hr
    have h := hkept r hr
    by_cases hw : r ∈ w.scheduler.queue <;> simp [hw, h]
  rw [hboth]
  exact List.filter_sublist

theorem taken_sorted (path : Path w ms v) :
    ((gather Event.taken ms).filter (· ∈ w.scheduler.queue)).Pairwise SyncPoint.Before := by
  induction path with
  | nil => exact List.Pairwise.nil
  | @cons w v m ms step rest ih =>
    have hsub := sublist_taken step rest
    have hrest := ih.sublist hsub
    have hcons : gather Event.taken (m :: ms) = m.event.taken ++ gather Event.taken ms := rfl
    rw [hcons, List.filter_append]
    cases ht : m.event.taken with
    | nil => exact hrest
    | cons p ps =>
      have hp : p ∈ m.event.taken := by rw [ht]; exact List.mem_cons_self
      have hps : ps = [] := by
        cases he : m.event <;> simp_all [Event.taken, Event.delivered, Event.passedOver]
      -- the head of the queue is taken, and what is pending behind it comes later
      have hhead := step.taken_head hp
      have hsorted := w.scheduler.sorted_queue
      rw [hhead] at hsorted
      have hmem : p ∈ w.scheduler.queue := by
        rw [hhead]
        exact List.mem_cons_self
      rw [hps, List.filter_cons_of_pos (by simp [hmem]), List.filter_nil]
      apply List.pairwise_cons.mpr
      refine ⟨?_, hrest⟩
      intro r hr
      have hpending := (List.mem_filter.mp (hsub.subset hr)).2
      exact (List.pairwise_cons.mp hsorted).1 r (of_decide_eq_true hpending)

end Path

variable {react : Reaction σ} {steps : Nat} {thread : ThreadId} {limit : Instant}

theorem World.mem_taken_of_schedule_ok {q : SyncPoint} (hs : w.scheduler.Sound)
    (h : (Program.schedule react steps thread limit).run w = .ok () v)
    (hq : q ∈ w.scheduler.queue) :
    let ms := (Program.schedule react steps thread limit).history w
    q ∈ gather Event.taken ms ↔ q.time ≤ limit ∧ q ∉ gather Event.takenBack ms := by
  intro ms
  have path : Path w ms v := by
    have hpath := (Program.schedule react steps thread limit).path w
    rwa [Program.after, Run.after_of_ok h] at hpath
  have hone := path.pending_once hq
  constructor
  · intro htaken
    obtain ⟨m, hm, hqm⟩ := List.mem_flatMap.mp htaken
    refine ⟨Program.schedule_dueUpTo react steps thread limit w m hm q hqm, ?_⟩
    intro hback
    have htaken := List.count_pos_iff.mpr htaken
    have hback := List.count_pos_iff.mpr hback
    omega
  · rintro ⟨hdue, hback⟩
    have hleft : q ∉ v.scheduler.queue := by
      intro hleft
      exact Instant.not_lt.mpr hdue ((lt_of_schedule_ok hs h).2 q hleft)
    have hleft := List.count_eq_zero.mpr hleft
    have hback := List.count_eq_zero.mpr hback
    exact List.count_pos_iff.mp (by omega)

/-- A call that comes to its end takes all that was pending and due, once and in order, except for
what was taken back on the way. -/
theorem World.taken_of_schedule_ok (hs : w.scheduler.Sound)
    (h : (Program.schedule react steps thread limit).run w = .ok () v) :
    let ms := (Program.schedule react steps thread limit).history w
    (gather Event.taken ms).filter (· ∈ w.scheduler.queue) =
      w.scheduler.queue.filter fun q => q.time ≤ limit ∧ q ∉ gather Event.takenBack ms := by
  intro ms
  have hsorted := ((Program.schedule react steps thread limit).path w).taken_sorted
  have hqueue : (w.scheduler.queue.filter fun q =>
      q.time ≤ limit ∧ q ∉ gather Event.takenBack ms).Pairwise SyncPoint.Before :=
    List.Pairwise.sublist List.filter_sublist w.scheduler.sorted_queue
  -- both sides are in order, so it is enough that they have the same members
  have hperm : ((gather Event.taken ms).filter (· ∈ w.scheduler.queue)).Perm
      (w.scheduler.queue.filter fun q => q.time ≤ limit ∧ q ∉ gather Event.takenBack ms) := by
    have hnodup := hsorted.imp SyncPoint.Before.ne
    apply (List.perm_ext_iff_of_nodup hnodup (hqueue.imp SyncPoint.Before.ne)).mpr
    intro q
    rw [List.mem_filter, List.mem_filter, decide_eq_true_iff, decide_eq_true_iff, and_comm]
    exact and_congr_right fun hq => mem_taken_of_schedule_ok hs h hq
  exact hperm.eq_of_pairwise (fun p q _ _ h h' => absurd h' h.asymm) hsorted hqueue

/-- A call to move time comes to its end and has delivered, of what was pending before, all that is
due and not taken back on the way, once and in order. -/
structure DeliversRest (react : Reaction σ) (steps : Nat) (thread : ThreadId) (limit : Instant)
    (v y : World σ) : Prop where
  run : (Program.schedule react steps thread limit).run v = .ok () y
  taken : (gather Event.taken ((Program.schedule react steps thread limit).history v)).filter
      (· ∈ v.scheduler.queue) =
    v.scheduler.queue.filter fun q => q.time ≤ limit ∧
      q ∉ gather Event.takenBack ((Program.schedule react steps thread limit).history v)
  rest : ∀ q ∈ y.scheduler.queue, limit < q.time

end Timebase
