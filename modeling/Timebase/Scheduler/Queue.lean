import Timebase.Time.Instant
/-!
# Sync points

A sync point asks for one wake-up of a device. Pending ones are kept in the order in which they
come due: by instant, and by registration where the instants are equal.
-/

namespace Timebase

/-- Tells the devices of one scheduler apart. -/
abbrev DeviceId := Nat

/-- Tells the sync points of a device apart. -/
abbrev Tag := Nat

structure SyncPoint where
  time : Instant
  device : DeviceId
  tag : Tag
  /-- Number of the registration. -/
  seq : Nat
  deriving DecidableEq, Repr, Inhabited

namespace SyncPoint

/-- The order of wake-ups. -/
def Before (p q : SyncPoint) : Prop := p.time < q.time ∨ p.time = q.time ∧ p.seq < q.seq

instance (p q : SyncPoint) : Decidable (p.Before q) :=
  inferInstanceAs (Decidable (_ ∨ _ ∧ _))

def isFor (device : DeviceId) (tag : Tag) (p : SyncPoint) : Bool :=
  p.device == device && p.tag == tag

end SyncPoint

/-- Sync points, the first to come due in front. -/
abbrev Queue := List SyncPoint

namespace Queue

/-- Puts a sync point behind those that do not come after it. -/
def insert (p : SyncPoint) : Queue → Queue
  | [] => [p]
  | q :: rest => if p.Before q then p :: q :: rest else q :: insert p rest

/-- Sync points in the order in which they come due. -/
def ofList (ps : List SyncPoint) : Queue := ps.foldr insert []

end Queue
end Timebase
