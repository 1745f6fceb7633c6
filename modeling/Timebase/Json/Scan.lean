import Timebase.Json.ReadError
/-!
# Scanning JSON text

Blanks, numbers, strings and words are read off the front of a text, and whole values can be
skipped at any depth. Every scanner gives back the rest of the text.
-/

namespace Timebase.Json

abbrev Input := List Char

/-- Reads something off the front of a text. -/
abbrev Scan (α : Type) := StateT Input (Except ReadError) α

variable {α : Type}

def malformed : Scan α := fun _ => .error .malformed

def unfit (cause : Mismatch) : Scan α := fun _ => .error (.unfit cause)

def isBlank (c : Char) : Bool := c == ' ' || c == '\n' || c == '\t' || c == '\r'

def skipBlank (input : Input) : Input := input.dropWhile isBlank

def blank : Scan Unit := fun input => .ok ((), skipBlank input)

/-- A word that the text has to begin with. -/
def word : List Char → Scan Unit
  | [], rest => .ok ((), rest)
  | _ :: _, [] => .error .malformed
  | w :: ws, c :: rest => if w = c then word ws rest else .error .malformed

/-- The digits at the front and the rest. -/
def spanDigits (input : Input) : List Nat × Input :=
  ((input.takeWhile Char.isDigit).map (fun c => c.toNat - '0'.toNat), input.dropWhile Char.isDigit)

/-- At least one digit. -/
def digits : Scan (List Nat) := fun input =>
  match spanDigits input with
  | ([], _) => .error .malformed
  | read => .ok read

/-- The number that digits stand for. -/
def ofDigits (ds : List Nat) : Nat := ds.foldl (fun n d => 10 * n + d) 0

/-- Appends digits as long as the number fits into 64 bits, and gives back those left over. -/
def absorb (n : Nat) : List Nat → Nat × List Nat
  | [] => (n, [])
  | d :: ds => if 10 * n + d < UInt64.size then absorb (10 * n + d) ds else (n, d :: ds)

/-- `x * 10 ^ exponent` in float arithmetic; nothing if it is too great. -/
def scale (x : Float) (exponent : Int) : Option Float :=
  if 308 < exponent then if x == 0 then some x else none
  else if 0 ≤ exponent then
    let y := x * Float.ofScientific 1 false exponent.toNat
    if y.isInf then none else some y
  else if -308 ≤ exponent then some (x / Float.ofScientific 1 false (-exponent).toNat)
  else if x == 0 then some x
  else scale (x / Float.ofScientific 1 false 308) (exponent + 308)
termination_by (-exponent).toNat

/-- The float of a sign, a significand and a power of ten. -/
def float (negative : Bool) (significand : Nat) (exponent : Int) : Scan Number :=
  match scale (Float.ofNat significand) exponent with
  | some x => return .float (if negative then -x else x)
  | none => malformed

/-- An integer that fits into 64 bits is exact; zero with a sign is a float. -/
def integer (negative : Bool) (n : Nat) : Number :=
  if !negative then .natural n
  else if n = 0 ∨ 9223372036854775808 < n then .float (-(Float.ofNat n))
  else .negative (-n)

/-- What an exponent says: whether it is negative, and its digits. -/
def exponent : Scan (Bool × Nat) := do
  let below ← fun input => match input with
    | '+' :: rest => .ok (false, rest)
    | '-' :: rest => .ok (true, rest)
    | rest => .ok (false, rest)
  return (below, ofDigits (← digits))

/-- A float with an exponent behind it. One that is out of all bounds is an error unless the number
is zero or vanishes. -/
def withExponent (negative : Bool) (significand : Nat) (start : Int) : Scan Number := do
  let (below, n) ← exponent
  if n < 2147483648 then
    float negative significand (if below then start - n else start + n)
  else if significand ≠ 0 ∧ !below then malformed
  else return .float (if negative then -0.0 else 0.0)

/-- Digits before the point: no zero in front of others. -/
def whole : Scan (List Nat) := do
  match ← digits with
  | 0 :: _ :: _ => malformed
  | ds => return ds

/-- Whether the text begins with a character, which is then taken. -/
def accept (p : Char → Bool) : Scan Bool := fun input =>
  match input with
  | c :: rest => if p c then .ok (true, rest) else .ok (false, input)
  | [] => .ok (false, [])

def isExponentMark (c : Char) : Bool := c == 'e' || c == 'E'

/-- A number behind its sign. Digits beyond 64 bits only count as places. -/
def number (negative : Bool) : Scan Number := do
  let (significand, surplus) := absorb 0 (← whole)
  if ← accept (· == '.') then
    let fraction ← digits
    let (significand, ignored) := absorb significand fraction
    let start : Int := surplus.length - (fraction.length - ignored.length : Nat)
    if ← accept isExponentMark then withExponent negative significand start
    else float negative significand start
  else if ← accept isExponentMark then withExponent negative significand surplus.length
  else if surplus.isEmpty then return integer negative significand
  else float negative significand surplus.length

/-- A character of a string, or a number that stands for one or for half of one. -/
inductive Piece where
  | char (c : Char)
  | unit (n : Nat)

def hexDigit? (c : Char) : Option Nat :=
  if '0' ≤ c ∧ c ≤ '9' then some (c.toNat - '0'.toNat)
  else if 'a' ≤ c ∧ c ≤ 'f' then some (c.toNat - 'a'.toNat + 10)
  else if 'A' ≤ c ∧ c ≤ 'F' then some (c.toNat - 'A'.toNat + 10)
  else none

def hexUnit? (a b c d : Char) : Option Nat := do
  let a ← hexDigit? a
  let b ← hexDigit? b
  let c ← hexDigit? c
  let d ← hexDigit? d
  return ((a * 16 + b) * 16 + c) * 16 + d

/-- Characters that a backslash in front of a letter stands for. -/
def escaped? : Char → Option Char
  | '"' => some '"'
  | '\\' => some '\\'
  | '/' => some '/'
  | 'b' => some '\x08'
  | 'f' => some '\x0c'
  | 'n' => some '\n'
  | 'r' => some '\r'
  | 't' => some '\t'
  | _ => none

private def after (p : Piece) (read : Except ReadError (List Piece × Input)) :
    Except ReadError (List Piece × Input) :=
  read.map (fun (ps, rest) => (p :: ps, rest))

/-- The pieces of a string up to its closing quote, which is taken too. -/
def pieces : Scan (List Piece)
  | [] => .error .malformed
  | '"' :: rest => .ok ([], rest)
  | '\\' :: 'u' :: a :: b :: c :: d :: rest =>
    match hexUnit? a b c d with
    | some n => after (.unit n) (pieces rest)
    | none => .error .malformed
  | '\\' :: e :: rest =>
    match escaped? e with
    | some c => after (.char c) (pieces rest)
    | none => .error .malformed
  | c :: rest =>
    if c = '\\' ∨ c.toNat < 32 then .error .malformed
    else after (.char c) (pieces rest)

def isHigh (n : Nat) : Bool := 0xD800 ≤ n && n < 0xDC00
def isLow (n : Nat) : Bool := 0xDC00 ≤ n && n < 0xE000

/-- Puts halves of characters together; neither may stand alone. -/
def assemble : List Piece → Option (List Char)
  | [] => some []
  | .char c :: rest => (c :: ·) <$> assemble rest
  | .unit high :: .unit low :: rest =>
    if isHigh high then
      if isLow low then
        (Char.ofNat (0x10000 + (high - 0xD800) * 0x400 + (low - 0xDC00)) :: ·) <$> assemble rest
      else none
    else if isLow high then none
    else (Char.ofNat high :: ·) <$> assemble (.unit low :: rest)
  | .unit n :: rest =>
    if isHigh n || isLow n then none else (Char.ofNat n :: ·) <$> assemble rest

/-- A string behind its opening quote. -/
def string : Scan String := do
  match assemble (← pieces) with
  | some cs => return String.ofList cs
  | none => malformed

/-- A scalar, or the mere kind of a sequence or map, which is not read. -/
def found : Scan Found
  | 'n' :: rest => (do word ['u', 'l', 'l']; return .null : Scan Found) rest
  | 't' :: rest => (do word ['r', 'u', 'e']; return .bool true : Scan Found) rest
  | 'f' :: rest => (do word ['a', 'l', 's', 'e']; return .bool false : Scan Found) rest
  | '"' :: rest => (Found.text <$> string : Scan Found) rest
  | '[' :: rest => .ok (.sequence, '[' :: rest)
  | '\x7b' :: rest => .ok (.map, '\x7b' :: rest)
  | '-' :: rest => (Found.number <$> number true : Scan Found) rest
  | input => (Found.number <$> number false : Scan Found) input

/-- A number whose size does not matter. -/
def skipNumber : Scan Unit := do
  let _ ← whole
  if ← accept (· == '.') then
    let _ ← digits
  if ← accept isExponentMark then
    let _ ← exponent

/-- A scalar whose value does not matter. -/
def skipScalar : Scan Unit
  | 'n' :: rest => word ['u', 'l', 'l'] rest
  | 't' :: rest => word ['r', 'u', 'e'] rest
  | 'f' :: rest => word ['a', 'l', 's', 'e'] rest
  | '"' :: rest => (do let _ ← pieces : Scan Unit) rest
  | '-' :: rest => skipNumber rest
  | input => skipNumber input

/-- What is open around a place in a text. -/
inductive Frame where
  | array | object

/-- What has to come next. -/
inductive Awaited where
  | value | member | separator

/-- Skips to the end of all that is open. Each step but the last takes a character, so the length
of the text bounds the steps. -/
def skipOpen : Nat → Awaited → List Frame → Scan Unit
  | 0, _, _, _ => .error .malformed
  | steps + 1, .value, frames, input =>
    match skipBlank input with
    | '[' :: rest =>
      match skipBlank rest with
      | ']' :: rest => skipOpen steps .separator frames rest
      | rest => skipOpen steps .value (.array :: frames) rest
    | '\x7b' :: rest =>
      match skipBlank rest with
      | '\x7d' :: rest => skipOpen steps .separator frames rest
      | rest => skipOpen steps .member (.object :: frames) rest
    | rest =>
      match skipScalar rest with
      | .ok (_, rest) => skipOpen steps .separator frames rest
      | .error e => .error e
  | steps + 1, .member, frames, input =>
    match skipBlank input with
    | '"' :: rest =>
      match pieces rest with
      | .ok (_, rest) =>
        match skipBlank rest with
        | ':' :: rest => skipOpen steps .value frames rest
        | _ => .error .malformed
      | .error e => .error e
    | _ => .error .malformed
  | _ + 1, .separator, [], input => .ok ((), input)
  | steps + 1, .separator, .array :: frames, input =>
    match skipBlank input with
    | ',' :: rest => skipOpen steps .value (.array :: frames) rest
    | ']' :: rest => skipOpen steps .separator frames rest
    | _ => .error .malformed
  | steps + 1, .separator, .object :: frames, input =>
    match skipBlank input with
    | ',' :: rest => skipOpen steps .member (.object :: frames) rest
    | '\x7d' :: rest => skipOpen steps .separator frames rest
    | _ => .error .malformed

/-- Skips one value of any depth. -/
def skipValue : Scan Unit := fun input => skipOpen (input.length + 2) .value [] input

/-- A character with blanks in front of it. -/
def mark (c : Char) : Scan Unit := do
  blank
  unless ← accept (· == c) do malformed

/-- Whether a list has another element; the text then stands at its beginning. The closing bracket
is left in place. -/
def nextElement (first : Bool) : Scan Bool := fun input =>
  match skipBlank input with
  | [] => .error .malformed
  | ']' :: rest => .ok (false, ']' :: rest)
  | c :: rest =>
    if first then .ok (true, c :: rest)
    else if c = ',' then
      match skipBlank rest with
      | [] | ']' :: _ => .error .malformed
      | rest => .ok (true, rest)
    else .error .malformed

/-- The name of the next member of an object, if there is one. The closing brace is left in
place. -/
def nextName (first : Bool) : Scan (Option String) := do
  blank
  match ← get with
  | '\x7d' :: _ => return none
  | '"' :: rest =>
    unless first do malformed
    set rest
    some <$> string
  | ',' :: rest =>
    if first then malformed
    set rest
    mark '"'
    some <$> string
  | _ => malformed

end Timebase.Json
