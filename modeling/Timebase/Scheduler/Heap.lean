import Timebase.Scheduler.Queue
/-!
# Heaps of sync points

Pending sync points are stored in an array as a binary heap: none comes due before the one at its
parent's place, so the first to come due stands in front. What is put in or taken out disturbs the
order along one branch, and is let rise or sink to where it belongs.
-/

namespace Timebase
namespace Heap

def parent (i : Nat) : Nat := (i - 1) / 2

theorem parent_lt {i : Nat} (h : 0 < i) : parent i < i := by
  unfold parent
  omega

/-- The child that comes due first. -/
def firstChild (a : Array SyncPoint) (i : Nat) : Nat :=
  if 2 * i + 2 < a.size ∧ a[2 * i + 2]!.Before a[2 * i + 1]! then 2 * i + 2 else 2 * i + 1

theorem lt_firstChild (a : Array SyncPoint) (i : Nat) : i < firstChild a i := by
  unfold firstChild
  split <;> omega

/-- Lets a sync point rise as long as it comes due before its parent. -/
@[semireducible]
def siftUp (a : Array SyncPoint) (i : Nat) : Array SyncPoint :=
  if h : 0 < i ∧ a[i]!.Before a[parent i]! then
    have := parent_lt h.1
    siftUp (a.swapIfInBounds i (parent i)) (parent i)
  else a
termination_by i

/-- Lets a sync point sink as long as one of its children comes due before it. -/
@[semireducible]
def siftDown (a : Array SyncPoint) (i : Nat) : Array SyncPoint :=
  if firstChild a i < a.size ∧ a[firstChild a i]!.Before a[i]! then
    have := lt_firstChild a i
    siftDown (a.swapIfInBounds i (firstChild a i)) (firstChild a i)
  else a
termination_by a.size - i
decreasing_by
  rw [Array.size_swapIfInBounds]
  omega

/-- Puts all in order that have children before a place. -/
def rebuildBelow : Nat → Array SyncPoint → Array SyncPoint
  | 0, a => a
  | i + 1, a => rebuildBelow i (siftDown a i)

/-- Whether it costs less to put all in order than to let what stands behind a place rise. -/
def favoursRebuild (size start : Nat) : Bool :=
  let tail := size - start
  if start < tail then true
  else if size ≤ 2048 then 2 * size < tail * start.log2
  else 2 * size < tail * 11

/-- Puts in order what stands behind a place. -/
def repair (a : Array SyncPoint) (start : Nat) : Array SyncPoint :=
  if favoursRebuild a.size start then rebuildBelow (a.size / 2) a
  else (List.range' start (a.size - start)).foldl siftUp a

def push (a : Array SyncPoint) (p : SyncPoint) : Array SyncPoint := siftUp (a.push p) a.size

/-- Takes out the one in front. -/
def pop (a : Array SyncPoint) : Array SyncPoint :=
  siftDown (a.swapIfInBounds 0 (a.size - 1)).pop 0

/-- Takes out the first of a kind in the order of places. -/
def removeOne (kind : SyncPoint → Bool) (a : Array SyncPoint) : Array SyncPoint :=
  repair (a.toList.eraseP kind).toArray (a.toList.findIdx kind)

def removeAll (kind : SyncPoint → Bool) (a : Array SyncPoint) : Array SyncPoint :=
  repair (a.toList.filter fun p => !kind p).toArray (a.toList.findIdx kind)

end Heap
end Timebase
