import PerformanceEstimation.Decimal.Shortest

/-!
# Rounded decimal texts

A double is written with a fixed number of places, or in scientific form with a fixed number of
places after the leading digit. Both round the exact value of the double, a tie to the even digit.
-/

set_option autoImplicit false

namespace PerformanceEstimation.Decimal

/-- Text with exactly `places` decimals. A number which rounds to zero has no sign. -/
def fixed (places : Nat) (x : Float) : String :=
  match Binary.ofFloat x with
  | .finite negative mantissa exponent =>
    let n := ((Binary.magnitude mantissa exponent).scale 10 places).round
    let digits := (Digits.mk n (-places)).positional
    if negative && n != 0 then "-" ++ digits else digits
  | _ => shortest x

/-- The leading digit and `places` more of a positive quotient, with the exponent of the leading
digit. Rounding up to the next power of ten moves the leading digit. -/
def leadingDigits (places : Nat) (q : Quotient) : Nat × Int :=
  let lead := q.decimalExponent
  let n := (q.scale 10 (places - lead)).round
  if n < Nat.pow 10 (places + 1) then (n, lead) else (n / 10, lead + 1)

/-- Text with one digit before the point, `places` after it, and an exponent of ten. -/
def scientific (places : Nat) (x : Float) : String :=
  match Binary.ofFloat x with
  | .finite negative mantissa exponent =>
    let (n, lead) :=
      if mantissa = 0 then (0, 0) else leadingDigits places (Binary.magnitude mantissa exponent)
    let digits := (Digits.mk n (-places)).positional ++ "e" ++ toString lead
    if negative then "-" ++ digits else digits
  | _ => shortest x

end PerformanceEstimation.Decimal
