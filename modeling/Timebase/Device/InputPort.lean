import Timebase.Run
/-!
# Input port

Bytes come in at any time and are latched one by one, each at a wake-up of its own.
-/

namespace Timebase

structure InputPort where
  waiting : List UInt8
  latched : List (Instant × UInt8)

namespace InputPort

def label : String := "input"

def arrival : Nat := 0

def new : InputPort := ⟨[], []⟩

def inject (byte : UInt8) (p : InputPort) : InputPort := { p with waiting := p.waiting ++ [byte] }

/-- Latches the byte that has waited longest. -/
def wake (time : Instant) (p : InputPort) : InputPort :=
  match p.waiting with
  | byte :: rest => ⟨rest, p.latched ++ [(time, byte)]⟩
  | [] => p

end InputPort
end Timebase
