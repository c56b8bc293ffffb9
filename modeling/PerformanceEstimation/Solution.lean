import PerformanceEstimation.Certificate

/-!
# Solutions

A solution holds the worst-case Gram matrix and function values of a program, with a multiplier for
each constraint. Expressions are evaluated at the worst case; points are realized as vectors whose
inner products are the Gram entries, by the columns of its square root.
-/

set_option autoImplicit false

namespace PerformanceEstimation

open Scalar

structure Solution (α : Type) where
  worstCase : α
  order : Nat
  gram : List α
  values : List (ValueIndex × α)
  multipliers : List α
  psd : List α
  warnings : List (Defect α)
  certificate : Option (Certificate α)

namespace Solution

variable {α : Type} [Scalar α]

/-- Worst-case Gram entry; zero outside the matrix. -/
def gramEntry (s : Solution α) (pair : BasisPair) : α :=
  s.gram.getD pair.slot 0

/-- Worst-case function value; zero for a value that nothing constrains. -/
def valueOf (s : Solution α) (k : ValueIndex) : α :=
  (s.values.lookup k).getD 0

def eval (s : Solution α) (e : Expression α) : α :=
  e.evalAt s.gramEntry s.valueOf

/-- Coordinates of a point at the worst case, for a square root of the Gram matrix. Basis vectors
beyond the matrix do not count. -/
def evalPoint (squareRoot : List α → List α) (s : Solution α) (x : Point α) : List α :=
  let root := squareRoot s.gram
  let known : Point α := ⟨x.terms.filter fun (k, _) => k.pos < s.order⟩
  (List.range s.order).map fun r => known.evalAt fun k => root.getD (gramSlot ⟨r⟩ k) 0

end Solution

end PerformanceEstimation
