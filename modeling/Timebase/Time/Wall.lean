/-!
# Time on the wall

Date and time of day where a program runs, and their text.
-/

namespace Timebase

/-- Date and time of day, to the second. -/
structure WallTime where
  year : Int
  month : Nat
  day : Nat
  hour : Nat
  minute : Nat
  second : Nat
  deriving DecidableEq, Repr

namespace WallTime

/-- A number with zeros in front of it up to a width. -/
def padded (width n : Nat) : String :=
  let digits := toString n
  String.ofList (List.replicate (width - digits.length) '0') ++ digits

/-- Only years from 0 to 9999 are shown without a sign. -/
def yearSign (year : Int) : String :=
  if year < 0 then "-" else if 9999 < year then "+" else ""

def dateText (t : WallTime) : String :=
  yearSign t.year ++ padded 4 t.year.natAbs ++ "-" ++ padded 2 t.month ++ "-" ++ padded 2 t.day

def clockText (t : WallTime) : String :=
  padded 2 t.hour ++ ":" ++ padded 2 t.minute ++ ":" ++ padded 2 t.second

def text (t : WallTime) : String := t.dateText ++ " " ++ t.clockText

end WallTime
end Timebase
