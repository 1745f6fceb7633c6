import Timebase.Proofs.Heap
/-!
# Pending sync points

A registration gets the next number and is stored in the heap. So the numbers of what is pending are
told apart, and sync points that are taken out or back leave the others to come due as before. Which
of several that match is taken back is decided by the places at which they are stored.
-/

namespace Timebase

structure Pending where
  heap : Array SyncPoint
  /-- Number of the next registration. No run comes near the end of 64 bits: at a registration each
  nanosecond that takes more than five hundred years. -/
  nextSeq : Nat
  ordered : Heap.Ordered heap
  fresh : ∀ p ∈ heap.toList, p.seq < nextSeq
  distinct : heap.toList.Pairwise fun p q => p.seq ≠ q.seq
  deriving DecidableEq, Repr

namespace Pending

def empty : Pending where
  heap := #[]
  nextSeq := 0
  ordered := fun _ _ h => absurd h (Nat.not_lt_zero _)
  fresh := fun _ h => absurd h List.not_mem_nil
  distinct := .nil

def size (s : Pending) : Nat := s.heap.size

/-- The first to come due. -/
def first? (s : Pending) : Option SyncPoint := s.heap.toList.head?

def has (kind : SyncPoint → Bool) (s : Pending) : Bool := s.heap.toList.any kind

/-- The one of a kind that would be taken back. -/
def find? (kind : SyncPoint → Bool) (s : Pending) : Option SyncPoint := s.heap.toList.find? kind

def push (time : Instant) (device : DeviceId) (tag : Tag) (s : Pending) : Pending where
  heap := Heap.push s.heap ⟨time, device, tag, s.nextSeq⟩
  nextSeq := s.nextSeq + 1
  ordered := (Heap.push_spec s.ordered _).1
  fresh := by
    intro p hp
    rcases List.mem_cons.mp ((Heap.push_spec s.ordered _).2.mem_iff.mp hp) with rfl | hp
    · exact Nat.lt_succ_self _
    · exact Nat.lt_succ_of_lt (s.fresh p hp)
  distinct := by
    rw [(Heap.push_spec s.ordered _).2.pairwise_iff fun h => Ne.symm h, List.pairwise_cons]
    exact ⟨fun p hp => Nat.ne_of_gt (s.fresh p hp), s.distinct⟩

/-- Some of what is pending, stored anew. -/
def only (s : Pending) {heap : Array SyncPoint} {ps : List SyncPoint}
    (h : Heap.Ordered heap ∧ heap.toList.Perm ps) (hsub : ps.Sublist s.heap.toList) : Pending where
  heap
  nextSeq := s.nextSeq
  ordered := h.1
  fresh p hp := s.fresh p (hsub.subset (h.2.mem_iff.mp hp))
  distinct := (h.2.pairwise_iff fun h => Ne.symm h).mpr (s.distinct.sublist hsub)

/-- Takes out the first to come due. -/
def pop (s : Pending) : Pending :=
  s.only (Heap.pop_spec s.ordered) (List.tail_sublist _)

/-- Takes back one of a kind. -/
def removeOne (kind : SyncPoint → Bool) (s : Pending) : Pending :=
  s.only (Heap.removeOne_spec s.ordered kind) List.eraseP_sublist

def removeAll (kind : SyncPoint → Bool) (s : Pending) : Pending :=
  s.only (Heap.removeAll_spec s.ordered kind) List.filter_sublist

end Pending
end Timebase
