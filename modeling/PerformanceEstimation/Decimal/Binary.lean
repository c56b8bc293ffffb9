import PerformanceEstimation.Decimal.Quotient

/-!
# Double-precision numbers

A double is a sign with a mantissa times a power of two, an infinity, or no number. `Binary.ofFloat`
takes a double apart; `Binary.nearest` finds the double nearest to a quotient, ties to the even
mantissa, on the grid that the exponent range leaves.
-/

set_option autoImplicit false

namespace PerformanceEstimation.Decimal

/-- What a double stands for: `mantissa * 2 ^ exponent` with a sign, or no finite number. -/
inductive Binary where
  | finite (negative : Bool) (mantissa : Nat) (exponent : Int)
  | infinite (negative : Bool)
  | notANumber

namespace Binary

/-- The smallest exponent, that of subnormal doubles. -/
def minExponent : Int := -1074

/-- The mantissas of normal doubles start here and end below twice this number. -/
def leadingBit : Nat := Nat.pow 2 52

def signBit : Nat := Nat.pow 2 63

def ofFloat (x : Float) : Binary :=
  let bits := x.toBits.toNat
  let negative := bits / signBit == 1
  let biased := bits / leadingBit % 2048
  let fraction := bits % leadingBit
  if biased = 2047 then
    if fraction = 0 then infinite negative else notANumber
  else if biased = 0 then finite negative fraction minExponent
  else finite negative (leadingBit + fraction) (minExponent + (biased - 1))

def magnitude (mantissa : Nat) (exponent : Int) : Quotient :=
  Quotient.scale ⟨mantissa, 1⟩ 2 exponent

/-- The double with the given sign, mantissa and exponent, where `mantissa ≤ 2 * leadingBit` and a
mantissa below `leadingBit` comes with the smallest exponent. Beyond the range it is infinite. -/
def assemble (negative : Bool) (mantissa : Nat) (exponent : Int) : Float :=
  let magnitude :=
    if mantissa < leadingBit then mantissa
    else (exponent - minExponent).toNat * leadingBit + mantissa
  let infinity := 2047 * leadingBit
  let sign := if negative then signBit else 0
  Float.ofBits (UInt64.ofNat (sign + min magnitude infinity))

def nearest (negative : Bool) (q : Quotient) : Float :=
  let estimate : Int := (q.num.log2 : Int) - q.den.log2 - 53
  let exponent := max minExponent <|
    if leadingBit ≤ (q.scale 2 (-(estimate + 1))).floor then estimate + 1 else estimate
  assemble negative (q.scale 2 (-exponent)).round exponent

end Binary

end PerformanceEstimation.Decimal
