import PerformanceEstimation.Constraint
import PerformanceEstimation.Decimal.Shortest

/-!
# Texts of points, expressions and constraints

A term is its coefficient, a star and its unknown. The constant of an expression is always written
and comes last, after the function values and the Gram entries.
-/

set_option autoImplicit false

namespace PerformanceEstimation

instance : ToString BasisPair := ⟨fun p => s!"<{p.row},{p.col}>"⟩

def termText {κ : Type} [ToString κ] (term : κ × Float) : String :=
  s!"{Decimal.shortest term.2}*{term.1}"

instance : ToString (Point Float) where
  toString p := if p.isZero then "0" else " + ".intercalate (p.terms.map termText)

instance : ToString (Expression Float) where
  toString e := " + ".intercalate
    (e.values.map termText ++ e.gram.map termText ++ [Decimal.shortest e.constant])

instance : ToString (Constraint Float) where
  toString c :=
    match c.sense with
    | .lessEq => s!"{c.lhs} <= 0"
    | .equal => s!"{c.lhs} == 0"

end PerformanceEstimation
