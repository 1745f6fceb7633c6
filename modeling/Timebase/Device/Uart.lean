import Timebase.Device.Guarded
import Timebase.Clock.Basic
/-!
# Serial transmitter

Bytes go out in frames of ten bits on the ticks of a clock at the baud rate. A burst begins at the
start wake-up and goes on without a gap while there is data.
-/

namespace Timebase

/-- The far end of the line: what has arrived and was not fetched yet. -/
structure Receiver where
  connected : Bool
  arrived : List UInt8
  deriving DecidableEq, Repr

namespace Receiver

def listening : Receiver := ⟨true, []⟩

/-- A byte arrives unless nobody listens. -/
def deliver (byte : UInt8) (r : Receiver) : Receiver :=
  if r.connected then { r with arrived := r.arrived ++ [byte] } else r

/-- Fetches what has arrived, if somebody still listens. -/
def fetch (r : Receiver) : Option (List UInt8) × Receiver :=
  if r.connected then (some r.arrived, { r with arrived := [] }) else (none, r)

/-- Stops listening; answers whether somebody did. -/
def hangUp (r : Receiver) : Bool × Receiver := (r.connected, ⟨false, []⟩)

end Receiver

structure Uart where
  clock : Clock
  queue : List UInt8
  current : UInt8
  bitsLeft : Nat
  busy : Bool
  bitsSent : Nat
  receiver : Receiver

namespace Uart

def label : String := "uart"

def start : Nat := 0
def bit : Nat := 1

/-- A start bit, eight data bits and a stop bit. -/
def bitsPerFrame : Nat := 10

def new (now : Instant) (baud : Nat) : Attempt Uart := do
  return ⟨← Clock.new now baud, [], 0, 0, false, 0, .listening⟩

/-- Queues data; answers whether a burst has to be started. -/
def send (bytes : List UInt8) (u : Uart) : Bool × Uart :=
  (!u.busy, { u with queue := u.queue ++ bytes, busy := true })

/-- Gives up the current byte and all that is queued. -/
def reset (u : Uart) : Uart := { u with queue := [], bitsLeft := 0, busy := false }

/-- Takes the next byte of the queue; without one the burst is over. -/
def load : Run Uart Bool := do
  match (← get).queue with
  | byte :: rest =>
    modify fun u => { u with queue := rest, current := byte, bitsLeft := bitsPerFrame }
    return true
  | [] =>
    modify fun u => { u with busy := false }
    return false

/-- The end of the bit that is on the line. -/
def nextBit : Run Uart (Option Request) := do
  return some ⟨← Run.read fun u => u.clock.timeAfter 1, bit⟩

/-- One bit is out; with the last of a frame the byte has arrived. -/
def countBit : Run Uart Unit := do
  Run.update fun u => return { u with clock := (← u.clock.forward 1) }
  Run.update fun u => return { u with bitsSent := (← Word.add u.bitsSent 1) }
  modify fun u => { u with bitsLeft := u.bitsLeft - 1 }

/-- Starts a burst or ends a bit, and asks for the end of the next bit if there is one. A bit of a
burst that was given up is nobody's. -/
def wake (time : Instant) (tag : Nat) : Run Uart (Option Request) := do
  if tag = start then
    modify fun u => { u with clock := u.clock.reset time }
    if ← load then nextBit else return none
  else if tag = bit then
    if (← get).bitsLeft = 0 then return none
    countBit
    if (← get).bitsLeft = 0 then
      modify fun u => { u with receiver := u.receiver.deliver u.current }
      if ← load then nextBit else return none
    else nextBit
  else Run.violate .unknownWake

end Uart
end Timebase
