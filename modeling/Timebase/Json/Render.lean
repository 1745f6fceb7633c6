import Timebase.Json.Value
/-!
# JSON values to text

The compact text has no blanks. The spread text has one element or member on a line, two blanks
deeper than what holds it, and nothing between the brackets of an empty one.
-/

namespace Timebase.Json

private def hexDigit (n : Nat) : Char := (Nat.digitChar n)

/-- A character inside a string. -/
def renderChar (c : Char) : List Char :=
  if c = '"' ∨ c = '\\' then ['\\', c]
  else if c = '\x08' then ['\\', 'b']
  else if c = '\x0c' then ['\\', 'f']
  else if c = '\n' then ['\\', 'n']
  else if c = '\r' then ['\\', 'r']
  else if c = '\t' then ['\\', 't']
  else if c.toNat < 32 then ['\\', 'u', '0', '0', hexDigit (c.toNat / 16), hexDigit (c.toNat % 16)]
  else [c]

def renderText (s : String) : String :=
  String.ofList (['"'] ++ s.toList.flatMap renderChar ++ ['"'])

/-- JSON has no text for floats that are not finite. -/
def renderNumber : Number → String
  | .float x => if x.isFinite then floatLayout.render x else "null"
  | n => n.render

mutual

def Value.compact : Value → String
  | .null => "null"
  | .bool b => toString b
  | .number n => renderNumber n
  | .text s => renderText s
  | .array elements => "[" ++ ",".intercalate (compactElements elements) ++ "]"
  | .object entries => "\x7b" ++ ",".intercalate (compactEntries entries) ++ "\x7d"

def compactElements : List Value → List String
  | [] => []
  | v :: rest => v.compact :: compactElements rest

def compactEntries : List (String × Value) → List String
  | [] => []
  | (name, v) :: rest => (renderText name ++ ":" ++ v.compact) :: compactEntries rest

end

private def indented (depth : Nat) : String :=
  "\n" ++ String.ofList (List.replicate (2 * depth) ' ')

/-- Lines between two brackets. -/
private def block (opening closing : String) (depth : Nat) : List String → String
  | [] => opening ++ closing
  | lines =>
    opening ++ ",".intercalate (lines.map (indented (depth + 1) ++ ·)) ++ indented depth ++ closing

mutual

def Value.spreadAt (depth : Nat) : Value → String
  | .array elements => block "[" "]" depth (spreadElements (depth + 1) elements)
  | .object entries => block "\x7b" "\x7d" depth (spreadEntries (depth + 1) entries)
  | .null => Value.null.compact
  | .bool b => (Value.bool b).compact
  | .number n => (Value.number n).compact
  | .text s => (Value.text s).compact

def spreadElements (depth : Nat) : List Value → List String
  | [] => []
  | v :: rest => v.spreadAt depth :: spreadElements depth rest

def spreadEntries (depth : Nat) : List (String × Value) → List String
  | [] => []
  | (name, v) :: rest => (renderText name ++ ": " ++ v.spreadAt depth) :: spreadEntries depth rest

end

def Value.spread (v : Value) : String := v.spreadAt 0

end Timebase.Json
