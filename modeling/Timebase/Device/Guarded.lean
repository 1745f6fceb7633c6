import Timebase.Run
/-!
# Guarded states

A device works on its state under a guard. When a contract breaks meanwhile, the state may be half
changed, and nobody may use it any more.
-/

namespace Timebase

structure Guarded (α : Type) where
  value : α
  poisoned : Bool

/-- A wake-up that a device asks for when it is done. -/
structure Request where
  time : Instant
  tag : Nat
  deriving DecidableEq, Repr

namespace Guarded

variable {α β : Type}

def new (value : α) : Guarded α := ⟨value, false⟩

/-- Whether a guard is left with its state in doubt. -/
def poisons : Halt → Bool
  | .fault cause => cause.isViolation
  | .starved => false

/-- A run under the guard. -/
def access (act : Run α β) : Run (Guarded α) β := fun g =>
  if g.poisoned then Run.violate .poisoned g
  else match act g.value with
    | .ok b value => .ok b ⟨value, false⟩
    | .error halt value => .error halt ⟨value, poisons halt⟩

end Guarded
end Timebase
