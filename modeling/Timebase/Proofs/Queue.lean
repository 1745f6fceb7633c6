import Timebase.Scheduler.Queue
import Timebase.Proofs.Time.Order

/-!
# The order of sync points

Sync points come due by instant and then by registration, so those with different numbers come due
in one order only: a queue is told by what is in it.
-/

namespace Timebase

namespace SyncPoint

variable {p q r : SyncPoint}

theorem before_iff :
    p.Before q ↔ p.time.key < q.time.key ∨ p.time.key = q.time.key ∧ p.seq < q.seq := by
  constructor
  · rintro (h | ⟨h, hs⟩)
    · exact Or.inl h
    · exact Or.inr ⟨congrArg Instant.key h, hs⟩
  · rintro (h | ⟨h, hs⟩)
    · exact Or.inl h
    · exact Or.inr ⟨Instant.key_injective h, hs⟩

theorem Before.trans (h : p.Before q) (h' : q.Before r) : p.Before r := by
  rw [before_iff] at h h' ⊢
  omega

theorem Before.asymm (h : p.Before q) : ¬ q.Before p := by
  rw [before_iff] at h ⊢
  omega

theorem Before.ne (h : p.Before q) : p ≠ q := by
  rintro rfl
  exact h.asymm h

theorem Before.time_le (h : p.Before q) : p.time ≤ q.time := by
  rw [before_iff] at h
  rw [Instant.le_iff_key]
  omega

theorem not_before_self (p : SyncPoint) : ¬ p.Before p := fun h => h.asymm h

theorem not_before_trans (h : ¬ q.Before p) (h' : ¬ r.Before q) : ¬ r.Before p := by
  rw [before_iff] at h h' ⊢
  omega

theorem before_of_not_before (hs : q.seq ≠ p.seq) (h : ¬ p.Before q) : q.Before p := by
  rw [before_iff] at h ⊢
  omega

theorem isFor_iff {device : DeviceId} {tag : Tag} :
    p.isFor device tag = true ↔ p.device = device ∧ p.tag = tag := by
  simp [isFor]

end SyncPoint

namespace Queue

variable {p q : SyncPoint} {queue : Queue} {device : DeviceId} {tag : Tag}

/-- Each sync point comes due before all behind it. -/
def Sorted (queue : Queue) : Prop := queue.Pairwise SyncPoint.Before

theorem insert_perm (p : SyncPoint) (queue : Queue) : (queue.insert p).Perm (p :: queue) := by
  induction queue with
  | nil => exact List.Perm.refl _
  | cons q rest ih =>
    rw [insert]
    by_cases h : p.Before q
    · rw [if_pos h]
    · rw [if_neg h]
      exact (ih.cons q).trans (List.Perm.swap p q rest)

theorem mem_insert : q ∈ queue.insert p ↔ q = p ∨ q ∈ queue := by
  rw [(insert_perm p queue).mem_iff, List.mem_cons]

theorem Sorted.insert (h : Sorted queue) (hs : ∀ q ∈ queue, q.seq ≠ p.seq) :
    Sorted (queue.insert p) := by
  induction queue with
  | nil => exact List.pairwise_singleton _ _
  | cons q rest ih =>
    have hq := List.pairwise_cons.mp h
    rw [Queue.insert]
    by_cases hp : p.Before q
    · rw [if_pos hp]
      apply List.pairwise_cons.mpr
      refine ⟨?_, h⟩
      intro r hr
      rcases List.mem_cons.mp hr with rfl | hr
      · exact hp
      · exact hp.trans (hq.1 r hr)
    · rw [if_neg hp]
      apply List.pairwise_cons.mpr
      refine ⟨?_, ih hq.2 fun r hr => hs r (List.mem_cons_of_mem _ hr)⟩
      intro r hr
      rcases mem_insert.mp hr with rfl | hr
      · exact SyncPoint.before_of_not_before (hs q List.mem_cons_self) hp
      · exact hq.1 r hr

theorem ofList_perm (ps : List SyncPoint) : (ofList ps).Perm ps := by
  induction ps with
  | nil => exact List.Perm.refl _
  | cons p ps ih => exact (insert_perm p (ofList ps)).trans (ih.cons p)

theorem sorted_ofList {ps : List SyncPoint} (h : ps.Pairwise fun p q => p.seq ≠ q.seq) :
    Sorted (ofList ps) := by
  induction ps with
  | nil => exact List.Pairwise.nil
  | cons p ps ih =>
    have hp := List.pairwise_cons.mp h
    apply (ih hp.2).insert
    intro q hq
    exact (hp.1 q ((ofList_perm ps).mem_iff.mp hq)).symm

/-- The same sync points come due in one order only. -/
theorem Sorted.eq_of_perm {queue' : Queue} (h : Sorted queue) (h' : Sorted queue')
    (hperm : queue.Perm queue') : queue = queue' :=
  hperm.eq_of_pairwise (fun _ _ _ _ hpq hqp => absurd hqp hpq.asymm) h h'

theorem filter_insert_of_neg {f : SyncPoint → Bool} {p : SyncPoint} (h : f p = false)
    (queue : Queue) : (queue.insert p).filter f = queue.filter f := by
  induction queue with
  | nil => simp [insert, h]
  | cons q rest ih =>
    rw [insert]
    split
    · simp [h]
    · rw [List.filter_cons, List.filter_cons, ih]

end Queue
end Timebase
