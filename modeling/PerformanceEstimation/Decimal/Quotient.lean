/-!
# Quotients of natural numbers

Exact arithmetic on a quotient `num / den` of natural numbers: rounding to the nearest integer with
ties to the even one, and the position of its leading decimal digit.
-/

set_option autoImplicit false

namespace PerformanceEstimation.Decimal

/-- A nonnegative rational number. The denominator is meant to be positive. -/
structure Quotient where
  num : Nat
  den : Nat

namespace Quotient

def scale (q : Quotient) (base : Nat) (exponent : Int) : Quotient :=
  match exponent with
  | .ofNat n => ⟨q.num * base.pow n, q.den⟩
  | .negSucc n => ⟨q.num, q.den * base.pow (n + 1)⟩

def floor (q : Quotient) : Nat :=
  q.num / q.den

/-- The nearest integer, of two equally near ones the even one. -/
def round (q : Quotient) : Nat :=
  let below := q.num / q.den
  let rest := q.num % q.den
  if 2 * rest < q.den then below
  else if q.den < 2 * rest then below + 1
  else below + below % 2

def digitCount (n : Nat) : Nat :=
  (Nat.toDigits 10 n).length

/-- The exponent of the power of ten at the leading decimal digit of a positive quotient. -/
def decimalExponent (q : Quotient) : Int :=
  let estimate : Int := digitCount q.num - digitCount q.den
  let scaled := q.scale 10 (-estimate)
  if scaled.den ≤ scaled.num then estimate else estimate - 1

end Quotient

end PerformanceEstimation.Decimal
