import Timebase.Decimal.Binary
/-!
# Floats with the fewest digits

Of all decimals that read back to a float, those with the fewest significant digits are taken, and
of these the nearest. The search compares the two neighbours of the exact value on each decimal
grid with the interval of numbers that round to the float.
-/

namespace Timebase.Decimal

/-- A positive value with the ends of its rounding interval, all three over one denominator. -/
structure Interval where
  low : Nat
  value : Nat
  high : Nat
  den : Nat
  /-- Whether a number at an end of the interval still rounds to the value. -/
  closed : Bool

/-- The interval of a float reaches half way to its neighbours; below a power of two the lower
neighbour is only half as far away. -/
def Binary.interval (b : Binary) : Interval :=
  let below := if b.mantissa = leadingOne ∧ -1074 < b.exponent then 1 else 2
  let (scale, den) := ({ b with mantissa := 1, exponent := b.exponent - 2 } : Binary).quotient
  { low := (4 * b.mantissa - below) * scale
    value := 4 * b.mantissa * scale
    high := (4 * b.mantissa + 2) * scale
    den := den
    closed := b.mantissa % 2 == 0 }

/-- The decimal `digits * 10 ^ exponent`. -/
structure Digits where
  digits : Nat
  exponent : Int
  deriving DecidableEq, Repr

/-- A grid point as a number over `10 ^ shift`, so that negative powers of ten need no fractions. -/
private def gridPoint (exponent : Int) (digits den : Nat) : Nat :=
  digits * den * tenTo exponent.toNat

/-- Whether `digits * 10 ^ exponent` lies in the interval. -/
def Interval.holds (i : Interval) (exponent : Int) (digits : Nat) : Bool :=
  let shift := tenTo (-exponent).toNat
  let point := gridPoint exponent digits i.den
  if i.closed then i.low * shift ≤ point && point ≤ i.high * shift
  else i.low * shift < point && point < i.high * shift

/-- The nearer neighbour of the value on a grid, if one of them lies in the interval. -/
def Interval.onGrid? (i : Interval) (exponent : Int) : Option Nat :=
  let shift := tenTo (-exponent).toNat
  let unit := i.den * tenTo exponent.toNat
  let below := i.value * shift / unit
  let rest := i.value * shift % unit
  let nearest := if 2 * rest < unit then below
    else if unit < 2 * rest then below + 1
    else below + below % 2
  let other := if nearest = below then below + 1 else below
  if i.holds exponent nearest then some nearest
  else if i.holds exponent other then some other
  else none

/-- The power of ten of the leading digit of a positive quotient. -/
def leadingPower (num den : Nat) : Int :=
  if den ≤ num then (toString (num / den)).length - 1
  else
    let guess : Nat := (toString (den / num)).length
    if den ≤ num * tenTo (guess - 1) then -((guess : Int) - 1) else -guess

/-- The first grid with a point in the interval, from one digit on. -/
def Interval.search (i : Interval) (leading : Int) : Nat → Nat → Digits
  | 0, count => ⟨i.value / i.den, leading - count⟩
  | tries + 1, count =>
    match i.onGrid? (leading - count) with
    | some digits => ⟨digits, leading - count⟩
    | none => i.search leading tries (count + 1)

/-- The fewest digits of a positive value: seventeen always suffice. -/
def Binary.shortest (b : Binary) : Digits :=
  let i := b.interval
  i.search (leadingPower i.value i.den) 18 0

/-- How a decimal with a chosen number of digits is laid out. -/
structure Layout where
  /-- The least and the greatest power of ten of the leading digit that are written without an
  exponent. -/
  leastPositional : Int
  greatestPositional : Int
  /-- What stands before the exponent if it is not negative. -/
  positiveMark : String

private def zeros (n : Nat) : String := String.ofList (List.replicate n '0')

/-- Digits with the point after the first one, and the power of ten behind them. -/
def Layout.scientific (n : Layout) (digits : String) (leading : Int) : String :=
  let rest := String.ofList (digits.toList.drop 1)
  String.ofList (digits.toList.take 1) ++ (if rest.isEmpty then "" else "." ++ rest) ++ "e" ++
    (if leading < 0 then "" else n.positiveMark) ++ toString leading

/-- Digits with the point where it belongs and at least one digit on either side. -/
def positional (digits : String) (leading : Int) : String :=
  if leading < 0 then "0." ++ zeros ((-leading).toNat - 1) ++ digits
  else
    let whole := leading.toNat + 1
    if digits.length ≤ whole then digits ++ zeros (whole - digits.length) ++ ".0"
    else String.ofList (digits.toList.take whole) ++ "." ++ String.ofList (digits.toList.drop whole)

private def withoutTrailingZeros (s : String) : String :=
  String.ofList (s.toList.reverse.dropWhile (· == '0')).reverse

def Layout.render (n : Layout) (x : Float) : String :=
  match ofFloat x with
  | .infinite negative => signText negative ++ "inf"
  | .notANumber => "NaN"
  | .finite b =>
    if b.mantissa = 0 then signText b.negative ++ "0.0"
    else
      let d := b.shortest
      let all := toString d.digits
      let leading := d.exponent + (all.length - 1 : Nat)
      let digits := withoutTrailingZeros all
      signText b.negative ++
        if n.leastPositional ≤ leading ∧ leading ≤ n.greatestPositional then
          positional digits leading
        else n.scientific digits leading

end Timebase.Decimal
