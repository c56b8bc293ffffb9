import PerformanceEstimation.Decimal.Binary

/-!
# Reading decimal texts

A floating-point text is an optional sign with `inf`, `infinity` or `nan` in any case, or with
digits around at most one point and an optional exponent. It reads as the nearest double. An integer
text is a sequence of digits with an optional sign; a minus sign is for signed types only, and a
number outside the range of its type does not read.
-/

set_option autoImplicit false

namespace PerformanceEstimation.Decimal

def digitsValue (cs : List Char) : Nat :=
  cs.foldl (fun n c => 10 * n + (c.toNat - '0'.toNat)) 0

def splitSign : List Char → Bool × List Char
  | '-' :: cs => (true, cs)
  | '+' :: cs => (false, cs)
  | cs => (false, cs)

/-- The exponent part of a number, which may be missing. -/
def readExponent? : List Char → Option Int
  | [] => some 0
  | c :: cs =>
    if c = 'e' || c = 'E' then
      let (negative, digits) := splitSign cs
      if digits.isEmpty || !digits.all Char.isDigit then none
      else
        let n : Int := digitsValue digits
        some (if negative then -n else n)
    else none

/-- The double nearest to `significand * 10 ^ exponent`. Exponents far outside the range of doubles
are settled before any power of ten is formed. -/
def nearestDouble (negative : Bool) (significand : Nat) (exponent : Int) : Float :=
  let lead := exponent + Quotient.digitCount significand
  if significand = 0 || lead < -330 then Binary.assemble negative 0 Binary.minExponent
  else if 310 < lead then (if negative then -1 else 1) / 0
  else Binary.nearest negative (Quotient.scale ⟨significand, 1⟩ 10 exponent)

def readMagnitude? (negative : Bool) (cs : List Char) : Option Float :=
  let whole := cs.takeWhile Char.isDigit
  let rest := cs.dropWhile Char.isDigit
  let (places, rest) :=
    match rest with
    | '.' :: rest => (rest.takeWhile Char.isDigit, rest.dropWhile Char.isDigit)
    | _ => ([], rest)
  if whole.isEmpty && places.isEmpty then none
  else
    (readExponent? rest).map fun exponent =>
      nearestDouble negative (digitsValue (whole ++ places)) (exponent - places.length)

def readFloat? (text : String) : Option Float :=
  let (negative, cs) := splitSign text.toList
  let word := String.ofList (cs.map Char.toLower)
  if word = "inf" || word = "infinity" then some ((if negative then -1 else 1) / 0)
  else if word = "nan" then some (0 / 0)
  else readMagnitude? negative cs

def readInt? (low high : Int) (text : String) : Option Int :=
  let (negative, digits) := splitSign text.toList
  if digits.isEmpty || !digits.all Char.isDigit || (negative && 0 ≤ low) then none
  else
    let n : Int := digitsValue digits
    let n := if negative then -n else n
    if low ≤ n && n ≤ high then some n else none

def readNat? (bits : Nat) (text : String) : Option Nat :=
  (readInt? 0 (Nat.pow 2 bits - 1 : Nat) text).map Int.toNat

end PerformanceEstimation.Decimal
