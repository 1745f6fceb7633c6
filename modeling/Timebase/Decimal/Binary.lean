/-!
# Binary floats as exact numbers

A finite float is a sign and a natural mantissa times a power of two. The two decimal texts of a
float, with fixed places and with the fewest digits, are both chosen from this exact value.
-/

namespace Timebase.Decimal

/-- The number `mantissa * 2 ^ exponent`, with its sign kept also when it is zero. -/
structure Binary where
  negative : Bool
  mantissa : Nat
  exponent : Int
  deriving DecidableEq, Repr

/-- What the bits of a float stand for. -/
inductive Reading where
  | finite (value : Binary)
  | infinite (negative : Bool)
  | notANumber
  deriving DecidableEq, Repr

/-- The leading one of a mantissa of 53 bits. -/
def leadingOne : Nat := 1 <<< 52

/-- A full exponent field marks what is not finite, and an empty one a mantissa without its
leading one. -/
def readBits (bits : Nat) : Reading :=
  let negative := decide (bits >>> 63 % 2 = 1)
  let field := bits >>> 52 % 2048
  let fraction := bits % leadingOne
  if field = 2047 then
    if fraction = 0 then .infinite negative else .notANumber
  else if field = 0 then .finite ⟨negative, fraction, -1074⟩
  else .finite ⟨negative, leadingOne + fraction, (field : Int) - 1075⟩

def ofFloat (x : Float) : Reading := readBits x.toBits.toNat

/-- The value without its sign as a quotient of natural numbers. -/
def Binary.quotient (b : Binary) : Nat × Nat :=
  if 0 ≤ b.exponent then (b.mantissa <<< b.exponent.toNat, 1)
  else (b.mantissa, 1 <<< (-b.exponent).toNat)

/-- A power of ten. -/
def tenTo (n : Nat) : Nat := Nat.pow 10 n

/-- The nearest natural number to a quotient, the even one of two that are equally near. -/
def roundHalfEven (num den : Nat) : Nat :=
  let q := num / den
  let r := num % den
  if 2 * r < den then q
  else if den < 2 * r then q + 1
  else q + q % 2

/-- Text of a sign: nothing for a positive value. -/
def signText (negative : Bool) : String := if negative then "-" else ""

end Timebase.Decimal
