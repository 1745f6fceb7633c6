import Timebase.Text.Quoted
import Timebase.Decimal.Shortest
/-!
# JSON values

Numbers keep apart naturals, negative integers and floats: an integer that fits into 64 bits is
exact, all others are floats.
-/

namespace Timebase.Json

inductive Number where
  | natural (n : Nat)
  | negative (n : Int)
  | float (x : Float)

inductive Value where
  | null
  | bool (b : Bool)
  | number (n : Number)
  | text (s : String)
  | array (elements : List Value)
  | object (members : List (String × Value))

/-- A float stands without an exponent if its leading digit is between the fifth place after the
point and the sixteenth before it. -/
def floatLayout : Decimal.Layout := ⟨-5, 15, "+"⟩

def Number.render : Number → String
  | .natural n => toString n
  | .negative n => toString n
  | .float x => floatLayout.render x

/-- The last value of each name, by name. -/
def members (entries : List (String × Value)) : List (String × Value) :=
  let last := entries.foldl (fun kept e => kept.filter (fun k => k.1 != e.1) ++ [e]) []
  last.mergeSort (fun a b => decide (a.1 ≤ b.1))

def Value.find? : Value → String → Option Value
  | .object entries, name => ((entries.reverse.find? (fun e => e.1 == name)).map (·.2))
  | _, _ => none

end Timebase.Json
