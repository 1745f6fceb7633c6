import Timebase.Fault
/-!
# Runs

A run changes a state and may halt. The state reached is kept when it halts, so what was done
before a fault stays done. A run may also use up the steps it was given.
-/

namespace Timebase

/-- Why a run came to no result. -/
inductive Halt where
  | fault (cause : Fault)
  | starved
  deriving DecidableEq, Repr

abbrev Run (σ α : Type) := EStateM Halt σ α

/-- A component of a state. -/
structure Part (σ τ : Type) where
  get : σ → τ
  set : τ → σ → σ

/-- One of several shapes of a state. -/
structure Case (σ τ : Type) where
  get? : σ → Option τ
  put : τ → σ

namespace Run

variable {σ τ α : Type}

/-- A computation without state. -/
def lift (x : Attempt α) : Run σ α := fun s =>
  match x with
  | .ok a => .ok a s
  | .error cause => .error (.fault cause) s

instance : MonadLift Attempt (EStateM Halt σ) := ⟨lift⟩

def refuse (cause : Refusal) : Run σ α := lift (Attempt.refuse cause)

def violate (cause : Violation) : Run σ α := lift (Attempt.violate cause)

def demand (kept : Bool) (cause : Violation) : Run σ Unit := lift (Attempt.demand kept cause)

/-- The steps are used up. -/
def starve : Run σ α := fun s => .error .starved s

/-- A change of the state that may fail as a whole. -/
def update (f : σ → Attempt σ) : Run σ Unit := fun s =>
  match f s with
  | .ok s' => .ok () s'
  | .error cause => .error (.fault cause) s

/-- A value computed from the state. -/
def read (f : σ → Attempt α) : Run σ α := fun s => lift (f s) s

/-- A fault becomes the result. -/
def attempt (act : Run σ α) : Run σ (Except Fault α) := fun s =>
  match act s with
  | .ok a s' => .ok (.ok a) s'
  | .error (.fault cause) s' => .ok (.error cause) s'
  | .error .starved s' => .error .starved s'

/-- The state is put in order afterwards, whatever happened. -/
def ensuring (act : Run σ α) (cleanup : σ → σ) : Run σ α := fun s =>
  match act s with
  | .ok a s' => .ok a (cleanup s')
  | .error halt s' => .error halt (cleanup s')

/-- A run on a component. -/
def on (part : Part σ τ) (act : Run τ α) : Run σ α := fun s =>
  match act (part.get s) with
  | .ok a t => .ok a (part.set t s)
  | .error halt t => .error halt (part.set t s)

/-- A run on a state that has the right shape; otherwise nothing happens. -/
def onCase (c : Case σ τ) (act : Run τ α) : Run σ (Option α) := fun s =>
  match c.get? s with
  | none => .ok none s
  | some t =>
    match act t with
    | .ok a t => .ok (some a) (c.put t)
    | .error halt t => .error halt (c.put t)

/-- A run on one item of a list, if there is such an item. -/
def onItem (index : Nat) (act : Run σ (Option α)) : Run (List σ) (Option α) := fun items =>
  match items[index]? with
  | none => .ok none items
  | some s =>
    match act s with
    | .ok a s => .ok a (items.set index s)
    | .error halt s => .error halt (items.set index s)

/-- The same run a number of times. -/
def iterate (act : Run σ Unit) : Nat → Run σ Unit
  | 0, s => .ok () s
  | n + 1, s =>
    match act s with
    | .ok _ s' => iterate act n s'
    | .error halt s' => .error halt s'

end Run
end Timebase
