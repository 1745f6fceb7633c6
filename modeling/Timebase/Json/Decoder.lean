import Timebase.Json.Scan
/-!
# Decoders

A decoder reads one kind of thing from JSON text and from a JSON value. On text it reports the
first thing that is wrong from the front; members of a value are visited in the order of their
names.
-/

namespace Timebase.Json

abbrev Fit (α : Type) := Except Mismatch α

structure Decoder (α : Type) where
  /-- Reads off the front of a text. -/
  scan : Scan α
  /-- Reads a whole value. -/
  fit : Value → Fit α

namespace Decoder

variable {α β σ : Type}

def map (f : α → β) (d : Decoder α) : Decoder β :=
  ⟨f <$> d.scan, fun v => f <$> d.fit v⟩

/-- A judgement on a scalar, as a step of a scan. -/
def judge (x : Fit α) : Scan α :=
  match x with
  | .ok a => return a
  | .error cause => unfit cause

/-- A decoder of scalars, given by what it makes of each. -/
def scalar (visit : Found → Fit α) : Decoder α where
  scan := do
    blank
    judge (visit (← found))
  fit v := visit v.found

def mismatched (found : Found) (expected : String) : Fit α := .error (.wrongType found expected)

/-- An integer between two bounds. -/
def integer (least greatest : Int) (expected : String) : Decoder Int :=
  scalar fun found =>
    match found with
    | .number (.natural n) =>
      if least ≤ n ∧ (n : Int) ≤ greatest then .ok n else .error (.wrongValue found expected)
    | .number (.negative n) =>
      if least ≤ n ∧ n ≤ greatest then .ok n else .error (.wrongValue found expected)
    | _ => mismatched found expected

/-- A natural number below a bound. -/
def natural (bound : Nat) (expected : String) : Decoder Nat :=
  (integer 0 (bound - 1) expected).map Int.toNat

def float : Decoder Float :=
  scalar fun found =>
    match found with
    | .number (.natural n) => .ok (Float.ofNat n)
    | .number (.negative n) => .ok (-(Float.ofNat n.natAbs))
    | .number (.float x) => .ok x
    | _ => mismatched found "f64"

def text : Decoder String :=
  scalar fun found =>
    match found with
    | .text s => .ok s
    | _ => mismatched found "a string"

def unit : Decoder Unit :=
  scalar fun found =>
    match found with
    | .null => .ok ()
    | _ => mismatched found "unit"

/-- The alternative of a name. -/
def variant (known : List (String × α)) (name : String) : Fit α :=
  match known.find? (·.1 == name) with
  | some (_, a) => .ok a
  | none => .error (.unknownVariant name (known.map (·.1)))

/-- One of several names, written as a string or as the only member of an object, with no
content. -/
def choice (known : List (String × α)) : Decoder α where
  scan := do
    blank
    match ← get with
    | '"' :: rest =>
      set rest
      judge (variant known (← string))
    | '\x7b' :: rest =>
      set rest
      mark '"'
      let a ← judge (variant known (← string))
      mark ':'
      unit.scan
      mark '\x7d'
      return a
    | _ => malformed
  fit
    | .text s => variant known s
    | .object entries =>
      match members entries with
      | [(name, content)] => do
        let a ← variant known name
        unit.fit content
        return a
      | _ => .error (.wrongValue .map "map with a single key")
    | v => mismatched v.found "string or map"

/-- A field of a record and how its value changes the record. -/
structure Field (σ : Type) where
  name : String
  store : Decoder (σ → σ)

def field (name : String) (d : Decoder α) (put : α → σ → σ) : Field σ := ⟨name, d.map put⟩

/-- A record is built by storing its fields in a blank one. -/
structure Record (σ : Type) where
  name : String
  fields : List (Field σ)
  blank : σ
  /-- Whether fields that are missing keep what the blank record has. -/
  lenient : Bool

namespace Record

def expected (r : Record σ) : String := "struct " ++ r.name

/-- How a list that is too short is told what was expected. -/
def expectedLength (r : Record σ) : String :=
  let n := r.fields.length
  r.expected ++ " with " ++ toString n ++ " element" ++ (if n = 1 then "" else "s")

/-- All fields are there, or the first one that is not. -/
def complete (r : Record σ) (seen : List String) (built : σ) : Fit σ :=
  if r.lenient then .ok built
  else match r.fields.find? (fun f => !seen.contains f.name) with
    | some f => .error (.missingField f.name)
    | none => .ok built

/-- Fields in their order from the elements of a list. -/
def scanElements (r : Record σ) : List (Field σ) → Nat → σ → Scan σ
  | [], _, built => return built
  | f :: fs, index, built => do
    if ← nextElement (index == 0) then
      let put ← f.store.scan
      scanElements r fs (index + 1) (put built)
    else if r.lenient then return built
    else unfit (.wrongLength index r.expectedLength)

/-- Fields by name up to the closing brace. Each step takes characters, so the length of the text
bounds the steps. -/
def scanMembers (r : Record σ) : Nat → List String → σ → Bool → Scan σ
  | 0, _, _, _ => malformed
  | steps + 1, seen, built, first => do
    match ← nextName first with
    | none =>
      mark '\x7d'
      judge (r.complete seen built)
    | some name =>
      match r.fields.find? (·.name == name) with
      | none =>
        mark ':'
        skipValue
        scanMembers r steps seen built false
      | some f =>
        if seen.contains name then unfit (.duplicateField name)
        mark ':'
        let put ← f.store.scan
        scanMembers r steps (name :: seen) (put built) false

def fitElements (r : Record σ) : List (Field σ) → Nat → List Value → σ → Fit (σ × List Value)
  | [], _, rest, built => .ok (built, rest)
  | _ :: _, index, [], built =>
    if r.lenient then .ok (built, []) else .error (.wrongLength index r.expectedLength)
  | f :: fs, index, v :: rest, built => do
    let put ← f.store.fit v
    fitElements r fs (index + 1) rest (put built)

def fitMembers (r : Record σ) : List (String × Value) → List String → σ → Fit σ
  | [], seen, built => r.complete seen built
  | (name, v) :: rest, seen, built =>
    match r.fields.find? (·.name == name) with
    | none => fitMembers r rest seen built
    | some f => do
      let put ← f.store.fit v
      fitMembers r rest (name :: seen) (put built)

end Record

/-- A record as an object of its fields or as the list of their values. -/
def record (r : Record σ) : Decoder σ where
  scan := do
    Json.blank
    match ← get with
    | '[' :: rest =>
      set rest
      let built ← r.scanElements r.fields 0 r.blank
      mark ']'
      return built
    | '\x7b' :: rest =>
      set rest
      r.scanMembers (rest.length + 1) [] r.blank true
    | _ => judge (mismatched (← found) r.expected)
  fit
    | .array elements => do
      let (built, rest) ← r.fitElements r.fields 0 elements r.blank
      if rest.isEmpty then return built
      else .error (.wrongLength elements.length "fewer elements in array")
    | .object entries => r.fitMembers (members entries) [] r.blank
    | v => mismatched v.found r.expected

/-- Elements up to the closing bracket, the latest first. -/
def scanList (d : Decoder α) : Nat → Bool → List α → Scan (List α)
  | 0, _, _ => malformed
  | steps + 1, first, read => do
    if ← nextElement first then
      let a ← d.scan
      scanList d steps false (a :: read)
    else return read.reverse

def list (d : Decoder α) : Decoder (List α) where
  scan := do
    Json.blank
    match ← get with
    | '[' :: rest =>
      set rest
      let read ← d.scanList (rest.length + 1) true []
      mark ']'
      return read
    | _ => judge (mismatched (← found) "a sequence")
  fit
    | .array elements => elements.mapM d.fit
    | v => mismatched v.found "a sequence"

private def pairLength : String := "a tuple of size 2"

/-- Two values as a list. -/
def pair (d : Decoder α) (e : Decoder β) : Decoder (α × β) where
  scan := do
    Json.blank
    match ← get with
    | '[' :: rest =>
      set rest
      unless ← nextElement true do unfit (.wrongLength 0 pairLength)
      let a ← d.scan
      unless ← nextElement false do unfit (.wrongLength 1 pairLength)
      let b ← e.scan
      mark ']'
      return (a, b)
    | _ => judge (mismatched (← found) pairLength)
  fit
    | .array [] => .error (.wrongLength 0 pairLength)
    | .array [v] => do
      let _ ← d.fit v
      .error (.wrongLength 1 pairLength)
    | .array (v :: w :: rest) => do
      let a ← d.fit v
      let b ← e.fit w
      if rest.isEmpty then return (a, b)
      else .error (.wrongLength (rest.length + 2) "fewer elements in array")
    | v => mismatched v.found pairLength

/-- Reads a text that holds one thing and blanks around it. -/
def ofText (d : Decoder α) (s : String) : Except ReadError α := do
  let (a, rest) ← d.scan s.toList
  if (skipBlank rest).isEmpty then return a else .error .malformed

def ofValue (d : Decoder α) (v : Value) : Except ReadError α :=
  match d.fit v with
  | .ok a => .ok a
  | .error cause => .error (.unfit cause)

end Decoder
end Timebase.Json
