import PerformanceEstimation.Decimal.Binary

/-!
# The shortest decimal text of a double

A finite double is written with the fewest digits which read back to the same double; among those
with that many digits, with the nearest to it. The digits are found on decimal grids of growing
fineness, in exact arithmetic: on each grid the two neighbours of the double are tried.

The text is positional at every size, without an exponent and without a trailing point.
-/

set_option autoImplicit false

namespace PerformanceEstimation.Decimal

structure Digits where
  significand : Nat
  exponent : Int

namespace Digits

/-- The same number without trailing zeros in the significand, within `fuel` steps. -/
def trim : Nat → Digits → Digits
  | 0, d => d
  | fuel + 1, d =>
    if d.significand % 10 = 0 && d.significand != 0 then
      trim fuel ⟨d.significand / 10, d.exponent + 1⟩
    else d

def positional (d : Digits) : String :=
  let digits := toString d.significand
  match d.exponent with
  | .ofNat n => digits ++ "".pushn '0' n
  | .negSucc n =>
    let places := n + 1
    if places < digits.length then
      let whole := digits.length - places
      String.ofList (digits.toList.take whole) ++ "." ++ String.ofList (digits.toList.drop whole)
    else "0." ++ "".pushn '0' (places - digits.length) ++ digits

end Digits

/-- The real numbers which round to one double: those between `low / scale` and `high / scale`,
the ends included where `closed` holds. `value / scale` is the double itself. -/
structure RoundingInterval where
  low : Nat
  value : Nat
  high : Nat
  scale : Quotient
  closed : Bool

namespace RoundingInterval

/-- The interval of a positive double. Below a power of two the doubles lie twice as close. -/
def ofBinary (mantissa : Nat) (exponent : Int) : RoundingInterval :=
  let narrow := mantissa = Binary.leadingBit && Binary.minExponent < exponent
  { low := 4 * mantissa - (if narrow then 1 else 2)
    value := 4 * mantissa
    high := 4 * mantissa + 2
    scale := Quotient.scale ⟨1, 4⟩ 2 exponent
    closed := mantissa % 2 = 0 }

/-- Whether the multiple `n` of the unit `10 ^ exponent` rounds to the double. -/
def holds (r : RoundingInterval) (exponent : Int) (n : Nat) : Bool :=
  let unit := Quotient.scale ⟨1, 1⟩ 10 exponent
  let point := n * unit.num * r.scale.den
  let low := r.low * r.scale.num * unit.den
  let high := r.high * r.scale.num * unit.den
  if r.closed then low ≤ point && point ≤ high else low < point && point < high

/-- The nearest multiple of `10 ^ exponent` which rounds to the double, of two equally near ones the
larger. -/
def onGrid? (r : RoundingInterval) (exponent : Int) : Option Nat :=
  let q := Quotient.scale ⟨r.value * r.scale.num, r.scale.den⟩ 10 (-exponent)
  let below := q.floor
  let nearer := if 2 * (q.num % q.den) < q.den then below else below + 1
  let farther := if 2 * (q.num % q.den) < q.den then below + 1 else below
  if r.holds exponent nearer then some nearer
  else if r.holds exponent farther then some farther
  else none

/-- The coarsest of the grids below the leading digit on which some point rounds to the double. -/
def shortest (r : RoundingInterval) : Nat → Int → Digits
  | 0, exponent => ⟨0, exponent⟩
  | fuel + 1, exponent =>
    match r.onGrid? exponent with
    | some n => Digits.trim 20 ⟨n, exponent⟩
    | none => shortest r fuel (exponent - 1)

end RoundingInterval

/-- Seventeen digits tell any two doubles apart. -/
def maxDigits : Nat := 17

def shortestDigits (mantissa : Nat) (exponent : Int) : Digits :=
  (RoundingInterval.ofBinary mantissa exponent).shortest maxDigits
    (Binary.magnitude mantissa exponent).decimalExponent

def shortest (x : Float) : String :=
  match Binary.ofFloat x with
  | .notANumber => "NaN"
  | .infinite negative => if negative then "-inf" else "inf"
  | .finite negative mantissa exponent =>
    let digits := if mantissa = 0 then "0" else (shortestDigits mantissa exponent).positional
    if negative then "-" ++ digits else digits

end PerformanceEstimation.Decimal
