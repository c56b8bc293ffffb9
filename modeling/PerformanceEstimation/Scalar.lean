/-!
# The arithmetic of coefficients

Points, expressions, programs and certificates are generic in the type of their coefficients.
`Scalar` lists the operations they use and no law: double-precision numbers are a scalar type,
and so are the real numbers and any other arithmetic with a square root of two.

Comparisons are decidable propositions that need not be total. A value which is not equal to
itself is no number; `Scalar.max` and `Scalar.min` then return the other operand.
-/

set_option autoImplicit false

namespace PerformanceEstimation

/-- Arithmetic on coefficients. No operation is assumed to satisfy any law. -/
class Scalar (α : Type) extends Add α, Sub α, Mul α, Div α, Neg α, BEq α, LT α, LE α where
  ofNat : Nat → α
  /-- Square root of two, the weight of an off-diagonal entry of a symmetric matrix. -/
  sqrtTwo : α
  protected abs : α → α
  isFinite : α → Bool
  decideLt : DecidableLT α
  decideLe : DecidableLE α

namespace Scalar

variable {α : Type} [Scalar α]

scoped instance (n : Nat) : OfNat α n := ⟨Scalar.ofNat n⟩

instance : DecidableLT α := Scalar.decideLt

instance : DecidableLE α := Scalar.decideLe

/-- The number zero, also its negative. -/
def isZero (a : α) : Bool :=
  a == 0

/-- Only a value which is no number differs from itself. -/
def isNumber (a : α) : Bool :=
  a == a

/-- The larger operand, or the one which is a number. -/
protected def max (a b : α) : α :=
  if a < b || !isNumber a then b else a

protected def min (a b : α) : α :=
  if b < a || !isNumber a then b else a

def minimum? (as : List α) : Option α :=
  as.foldl
    (fun best a => if isNumber a then some (best.elim a fun b => Scalar.min b a) else best)
    none

/-- Sum from left to right. The empty sum is negative zero, which is neutral on either side. -/
def sum (as : List α) : α :=
  as.foldl (· + ·) (-0)

end Scalar

instance : Scalar Float where
  ofNat := Float.ofNat
  sqrtTwo := Float.sqrt 2
  abs := Float.abs
  isFinite := Float.isFinite
  decideLt := inferInstance
  decideLe := inferInstance

end PerformanceEstimation
