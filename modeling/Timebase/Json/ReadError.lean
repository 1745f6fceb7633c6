import Timebase.Json.Value
/-!
# What can be wrong with JSON

A text that is no JSON is malformed, and that is all that is said of it. JSON that does not fit
what was expected is told apart by cause.
-/

namespace Timebase.Json

/-- What stood where something else was expected. -/
inductive Found where
  | null
  | bool (b : Bool)
  | number (n : Number)
  | text (s : String)
  | sequence
  | map

def Found.describe : Found → String
  | .null => "null"
  | .bool b => "boolean `" ++ toString b ++ "`"
  | .number (.natural n) => "integer `" ++ toString n ++ "`"
  | .number (.negative n) => "integer `" ++ toString n ++ "`"
  | .number (.float x) => "floating point `" ++ (Number.float x).render ++ "`"
  | .text s => "string " ++ Text.quoted s
  | .sequence => "sequence"
  | .map => "map"

def Value.found : Value → Found
  | .null => .null
  | .bool b => .bool b
  | .number n => .number n
  | .text s => .text s
  | .array _ => .sequence
  | .object _ => .map

/-- How JSON fails to be what was expected. -/
inductive Mismatch where
  | wrongType (found : Found) (expected : String)
  | wrongValue (found : Found) (expected : String)
  | wrongLength (length : Nat) (expected : String)
  | missingField (name : String)
  | duplicateField (name : String)
  | unknownVariant (name : String) (known : List String)

private def ticked (s : String) : String := "`" ++ s ++ "`"

/-- Alternatives in words. -/
def oneOf : List String → String
  | [] => "there are no variants"
  | [a] => "expected " ++ ticked a
  | [a, b] => "expected " ++ ticked a ++ " or " ++ ticked b
  | many => "expected one of " ++ ", ".intercalate (many.map ticked)

def Mismatch.message : Mismatch → String
  | .wrongType found expected => "invalid type: " ++ found.describe ++ ", expected " ++ expected
  | .wrongValue found expected => "invalid value: " ++ found.describe ++ ", expected " ++ expected
  | .wrongLength length expected =>
    "invalid length " ++ toString length ++ ", expected " ++ expected
  | .missingField name => "missing field " ++ ticked name
  | .duplicateField name => "duplicate field " ++ ticked name
  | .unknownVariant name known => "unknown variant " ++ ticked name ++ ", " ++ oneOf known

inductive ReadError where
  | malformed
  | unfit (cause : Mismatch)

def ReadError.message : ReadError → String
  | .malformed => ""
  | .unfit cause => cause.message

end Timebase.Json
