import Timebase.Scheduler.Basic

/-!
# What is stored and what comes due

Sync points stored as a heap come due in one order, whatever their places are. What is put in or
taken out of the heap is put in or taken out of that order, which changes in no other way.
-/

namespace Timebase

theorem perm_cons_eraseP {kind : SyncPoint → Bool} {p : SyncPoint} {ps : List SyncPoint}
    (h : ps.find? kind = some p) : ps.Perm (p :: ps.eraseP kind) := by
  induction ps with
  | nil => cases h
  | cons q rest ih =>
    by_cases hq : kind q = true
    · rw [List.find?_cons_of_pos hq] at h
      cases h
      rw [List.eraseP_cons_of_pos hq]
    · rw [List.find?_cons_of_neg hq] at h
      rw [List.eraseP_cons_of_neg hq]
      exact ((ih h).cons q).trans (List.Perm.swap p q _)

namespace Pending

variable {s : Pending} {kind : SyncPoint → Bool} {p : SyncPoint}

/-- In the order in which it comes due. -/
def queue (s : Pending) : Queue := Queue.ofList s.heap.toList

theorem queue_perm (s : Pending) : s.queue.Perm s.heap.toList := Queue.ofList_perm _

theorem sorted_queue (s : Pending) : s.queue.Sorted := Queue.sorted_ofList s.distinct

theorem seq_lt_nextSeq (h : p ∈ s.queue) : p.seq < s.nextSeq :=
  s.fresh p (s.queue_perm.mem_iff.mp h)

theorem queue_eq {q : Queue} (h : q.Sorted) (hperm : s.heap.toList.Perm q) : s.queue = q :=
  s.sorted_queue.eq_of_perm h (s.queue_perm.trans hperm)

@[simp] theorem size_eq_length (s : Pending) : s.size = s.queue.length :=
  s.queue_perm.length_eq.symm

theorem has_eq_any (kind : SyncPoint → Bool) (s : Pending) : s.has kind = s.queue.any kind := by
  rw [has, Bool.eq_iff_iff, List.any_eq_true, List.any_eq_true]
  simp only [s.queue_perm.mem_iff]

theorem first?_eq_head? (s : Pending) : s.first? = s.queue.head? := by
  have hperm := s.queue_perm
  have hsorted := s.sorted_queue
  have hfront {q : SyncPoint} (hq : q ∈ s.heap.toList) : ¬ q.Before s.heap[0]! :=
    s.ordered.not_before_front (Array.mem_toList_iff.mp hq)
  rw [first?]
  cases hq : s.queue with
  | nil =>
    rw [hq] at hperm
    rw [hperm.nil_eq.symm]
  | cons q rest =>
    rw [hq] at hperm hsorted
    cases hheap : s.heap.toList with
    | nil =>
      rw [hheap] at hperm
      exact absurd hperm.length_eq (Nat.succ_ne_zero _)
    | cons p ps =>
      have hp : p ∈ q :: rest := by
        rw [hperm.mem_iff, hheap]
        exact List.mem_cons_self
      have hfirst : s.heap[0]! = p := by rw [← Array.getElem!_toList, hheap]; rfl
      rcases List.mem_cons.mp hp with rfl | hp
      · rfl
      · have hbefore := (List.pairwise_cons.mp hsorted).1 p hp
        rw [← hfirst] at hbefore
        exact absurd hbefore (hfront (hperm.mem_iff.mp List.mem_cons_self))

theorem queue_push (time : Instant) (device : DeviceId) (tag : Tag) (s : Pending) :
    (s.push time device tag).queue = s.queue.insert ⟨time, device, tag, s.nextSeq⟩ := by
  apply queue_eq (s.sorted_queue.insert fun q hq => Nat.ne_of_lt (seq_lt_nextSeq hq))
  refine (Heap.push_spec s.ordered _).2.trans ?_
  exact ((s.queue_perm.cons _).symm).trans (Queue.insert_perm _ _).symm

theorem queue_pop (s : Pending) : s.pop.queue = s.queue.tail := by
  apply queue_eq (s.sorted_queue.sublist (List.tail_sublist _))
  refine (Heap.pop_spec s.ordered).2.trans ?_
  have hperm := s.queue_perm.symm
  have hhead : s.heap.toList.head? = s.queue.head? := s.first?_eq_head?
  cases hheap : s.heap.toList with
  | nil =>
    rw [hheap] at hperm
    rw [hperm.nil_eq.symm]
  | cons p ps =>
    rw [hheap, List.head?_cons] at hhead
    obtain ⟨rest, hq⟩ := List.head?_eq_some_iff.mp hhead.symm
    rw [hheap, hq] at hperm
    rw [hq]
    exact hperm.cons_inv

theorem mem_of_find? (h : s.find? kind = some p) : p ∈ s.queue ∧ kind p = true :=
  ⟨s.queue_perm.mem_iff.mpr (List.mem_of_find?_eq_some h), List.find?_some h⟩

theorem find?_eq_none : s.find? kind = none ↔ ∀ p ∈ s.queue, ¬ kind p = true := by
  rw [find?, List.find?_eq_none]
  simp only [s.queue_perm.mem_iff]

theorem has_eq_isSome (kind : SyncPoint → Bool) (s : Pending) :
    s.has kind = (s.find? kind).isSome := by
  rw [Bool.eq_iff_iff, find?, List.find?_isSome]
  exact List.any_eq_true

theorem queue_removeOne (h : s.find? kind = some p) :
    (s.removeOne kind).queue = s.queue.erase p := by
  apply queue_eq (s.sorted_queue.sublist List.erase_sublist)
  refine (Heap.removeOne_spec s.ordered kind).2.trans ?_
  have hperm := (s.queue_perm.trans (perm_cons_eraseP h)).erase p
  rw [List.erase_cons_head] at hperm
  exact hperm.symm

theorem queue_removeAll (kind : SyncPoint → Bool) (s : Pending) :
    (s.removeAll kind).queue = s.queue.filter fun p => !kind p :=
  queue_eq (s.sorted_queue.sublist List.filter_sublist)
    ((Heap.removeAll_spec s.ordered kind).2.trans (s.queue_perm.filter _).symm)

end Pending

namespace Scheduler

variable {s : Scheduler} {device : DeviceId} {tag : Tag} {p : SyncPoint}

/-- What is pending, in the order in which it comes due. -/
def queue (s : Scheduler) : Queue := s.pending.queue

/-- Number of the next registration. -/
def nextSeq (s : Scheduler) : Nat := s.pending.nextSeq

/-- What would be taken back of what is pending for a device with a tag. -/
def find? (s : Scheduler) (device : DeviceId) (tag : Tag) : Option SyncPoint :=
  s.pending.find? (SyncPoint.isFor device tag)

theorem sorted_queue (s : Scheduler) : s.queue.Sorted := s.pending.sorted_queue

theorem nodup_queue (s : Scheduler) : s.queue.Nodup := s.sorted_queue.imp fun h => h.ne

theorem seq_lt_nextSeq (h : p ∈ s.queue) : p.seq < s.nextSeq := Pending.seq_lt_nextSeq h

theorem size_eq_length (s : Scheduler) : s.size = s.queue.length := s.pending.size_eq_length

theorem isPending_eq_any (device : DeviceId) (tag : Tag) (s : Scheduler) :
    s.isPending device tag = s.queue.any (SyncPoint.isFor device tag) := s.pending.has_eq_any _

theorem mem_of_find? (h : s.find? device tag = some p) :
    p ∈ s.queue ∧ p.device = device ∧ p.tag = tag :=
  ⟨(Pending.mem_of_find? h).1, SyncPoint.isFor_iff.mp (Pending.mem_of_find? h).2⟩

theorem find?_eq_none :
    s.find? device tag = none ↔ ∀ p ∈ s.queue, ¬ p.isFor device tag = true :=
  Pending.find?_eq_none

/-- A single match is found wherever it is stored. -/
theorem find?_of_single (h : s.queue.filter (SyncPoint.isFor device tag) = [p]) :
    s.find? device tag = some p := by
  have hp := List.mem_filter.mp (h ▸ List.mem_singleton_self p)
  cases hf : s.find? device tag with
  | none => exact absurd hp.2 (find?_eq_none.mp hf p hp.1)
  | some q =>
    obtain ⟨hq, hkind⟩ := Pending.mem_of_find? hf
    have hmem : q ∈ s.queue.filter (SyncPoint.isFor device tag) := List.mem_filter.mpr ⟨hq, hkind⟩
    rw [h] at hmem
    rw [List.mem_singleton.mp hmem]

end Scheduler
end Timebase
