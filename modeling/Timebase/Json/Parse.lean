import Timebase.Json.Scan
/-!
# JSON text to values

Every step of the two readers takes at least one character, so the length of the text bounds them.
-/

namespace Timebase.Json

mutual

/-- A value and nothing behind it. -/
def scanValue : Nat → Scan Value
  | 0 => malformed
  | steps + 1 => do
    blank
    match ← get with
    | '[' :: rest =>
      set rest
      let elements ← scanElements steps true []
      mark ']'
      return .array elements
    | '\x7b' :: rest =>
      set rest
      let entries ← scanEntries steps true []
      mark '\x7d'
      return .object entries
    | _ =>
      match ← found with
      | .null => return .null
      | .bool b => return .bool b
      | .number n => return .number n
      | .text s => return .text s
      | .sequence | .map => malformed

/-- Elements up to the closing bracket. -/
def scanElements : Nat → Bool → List Value → Scan (List Value)
  | 0, _, _ => malformed
  | steps + 1, first, read => do
    if ← nextElement first then
      let v ← scanValue steps
      scanElements steps false (v :: read)
    else return read.reverse

/-- Members up to the closing brace. -/
def scanEntries : Nat → Bool → List (String × Value) → Scan (List (String × Value))
  | 0, _, _ => malformed
  | steps + 1, first, read => do
    match ← nextName first with
    | none => return read.reverse
    | some name =>
      mark ':'
      let v ← scanValue steps
      scanEntries steps false ((name, v) :: read)

end

/-- The value that a text holds. -/
def Value.ofText? (s : String) : Option Value :=
  match scanValue (s.length + 2) s.toList with
  | .ok (v, rest) => if (skipBlank rest).isEmpty then some v else none
  | .error _ => none

end Timebase.Json
