import Timebase.Decimal.Binary
/-!
# Floats with a fixed number of places

The exact binary value is rounded once, to the nearest multiple of a power of ten and to the even
one at a tie. A negative value keeps its sign when it rounds to zero.
-/

namespace Timebase.Decimal

/-- The decimal point stands before the last `places` digits of `units`. -/
def placed (places units : Nat) : String :=
  let whole := toString (units / tenTo places)
  if places = 0 then whole
  else
    let digits := toString (units % tenTo places)
    whole ++ "." ++ String.ofList (List.replicate (places - digits.length) '0') ++ digits

/-- A value in units of the last place. -/
def Binary.inPlaces (places : Nat) (b : Binary) : Nat :=
  roundHalfEven (b.quotient.1 * tenTo places) b.quotient.2

def fixed (places : Nat) (x : Float) : String :=
  match ofFloat x with
  | .finite b => signText b.negative ++ placed places (b.inPlaces places)
  | .infinite negative => signText negative ++ "inf"
  | .notANumber => "NaN"

end Timebase.Decimal
