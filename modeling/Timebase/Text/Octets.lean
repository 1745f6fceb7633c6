/-!
# Text from octets

Octets are read as UTF-8. Whatever cannot be read gives the replacement character once for each
longest stretch that some character could still begin with, and reading goes on behind it.
-/

namespace Timebase.Text

/-- How many octets a character still needs, and the least and greatest the next one may be. -/
structure Expected where
  owed : Nat
  least : Nat
  greatest : Nat
  deriving DecidableEq, Repr

/-- What the first octet of a character says about the rest: its own share of the code point and
what must follow. -/
def leading? (b : Nat) : Option (Nat × Expected) :=
  if 0xC2 ≤ b ∧ b ≤ 0xDF then some (b % 32, ⟨1, 0x80, 0xBF⟩)
  else if b = 0xE0 then some (b % 16, ⟨2, 0xA0, 0xBF⟩)
  else if b = 0xED then some (b % 16, ⟨2, 0x80, 0x9F⟩)
  else if 0xE1 ≤ b ∧ b ≤ 0xEF then some (b % 16, ⟨2, 0x80, 0xBF⟩)
  else if b = 0xF0 then some (b % 8, ⟨3, 0x90, 0xBF⟩)
  else if 0xF1 ≤ b ∧ b ≤ 0xF3 then some (b % 8, ⟨3, 0x80, 0xBF⟩)
  else if b = 0xF4 then some (b % 8, ⟨3, 0x80, 0x8F⟩)
  else none

def replacement : Char := '\uFFFD'

/-- A reader between characters, or inside one with the code point so far. -/
inductive Reader where
  | between
  | inside (point : Nat) (expected : Expected)

/-- An octet at the start of a character. -/
def start (b : Nat) : Reader × List Char :=
  if b < 0x80 then (.between, [Char.ofNat b])
  else match leading? b with
    | some (point, expected) => (.inside point expected, [])
    | none => (.between, [replacement])

/-- One octet: where the reader stands after it and the characters it completes. -/
def Reader.step : Reader → Nat → Reader × List Char
  | .between, b => start b
  | .inside point expected, b =>
    if expected.least ≤ b ∧ b ≤ expected.greatest then
      let point := point * 64 + b % 64
      if expected.owed ≤ 1 then (.between, [Char.ofNat point])
      else (.inside point ⟨expected.owed - 1, 0x80, 0xBF⟩, [])
    else
      let (next, chars) := start b
      (next, replacement :: chars)

/-- A character that the octets break off in the middle of is replaced too. -/
def Reader.finish : Reader → List Char
  | .between => []
  | .inside _ _ => [replacement]

def Reader.read : Reader → List UInt8 → List Char
  | r, [] => r.finish
  | r, b :: rest =>
    let (next, chars) := r.step b.toNat
    chars ++ next.read rest

/-- The text that octets stand for. -/
def ofOctets (octets : List UInt8) : String := String.ofList (Reader.between.read octets)

/-- The UTF-8 octets of a text. -/
def toOctets (s : String) : List UInt8 := s.toUTF8.toList

end Timebase.Text
