import Timebase.Text.Printable
/-!
# Quoted text

Text between double quotes in which every character can be seen: the quote, the backslash and the
usual controls have short escapes, marks and all that does not print are written by number.
-/

namespace Timebase.Text

/-- A character by its number, in lower-case hexadecimal digits. -/
def numbered (c : Char) : List Char :=
  ['\\', 'u', '\x7b'] ++ Nat.toDigits 16 c.toNat ++ ['\x7d']

def quotedChar (c : Char) : List Char :=
  if c = '\x00' then ['\\', '0']
  else if c = '\t' then ['\\', 't']
  else if c = '\r' then ['\\', 'r']
  else if c = '\n' then ['\\', 'n']
  else if c = '"' ∨ c = '\\' then ['\\', c]
  else if isPrintable c ∧ ¬ isMark c then [c]
  else numbered c

def quoted (s : String) : String :=
  String.ofList (['"'] ++ s.toList.flatMap quotedChar ++ ['"'])

end Timebase.Text
