import PerformanceEstimation.Parameters
import PerformanceEstimation.Program.Lowering
import PerformanceEstimation.Solution

/-!
# Solving a program

A program is lowered to a conic one, handed to a solver, and the answer is checked numerically:
both matrices for negative eigenvalues, the rows for violations, and the inequalities for products
with their multipliers. A defect above the tolerance fails the solve, a smaller one becomes a
warning.

The feasible unknowns of a homogeneous program form a cone, on which the metric is unbounded or
never exceeds its constant. The normalized program tells the two apart, before a solver is asked for
a solution.

The numerical methods are a parameter: `Backend` lists them.
-/

set_option autoImplicit false

namespace PerformanceEstimation

open Scalar

/-- Numerical methods on packed symmetric matrices and on conic programs. -/
structure Backend (α : Type) where
  /-- Smallest eigenvalue of a matrix, absent for the empty one. -/
  minEigenvalue : (packed : List α) → Option α
  /-- The packed positive semidefinite square root. -/
  squareRoot : (packed : List α) → List α
  /-- A primal and a dual solution. -/
  solve : Parameters α → ConicProgram α → Except SolverFault (List α × List α)

variable {α : Type} [Scalar α]

/-- Whether a defect fails the solve, is reported, or is within the expected accuracy. -/
def Parameters.judge (par : Parameters α) (d : Defect α) :
    Except (SolveError α) (List (Defect α)) :=
  if par.failAbove < d.amount then .error (.tolerance d)
  else if Scalar.max par.warnAbove par.accuracy < d.amount then .ok [d]
  else .ok []

namespace Solution

/-- How far a smallest eigenvalue lies below zero. -/
def negativePart (minEigenvalue : Option α) : α :=
  minEigenvalue.elim 0 fun e => Scalar.max (-e) 0

/-- The first row with the largest positive amount, and that amount. -/
def worst (amounts : List (ConstraintId × α)) : α × Option ConstraintId :=
  amounts.foldl
    (fun best (id, amount) => if best.1 < amount then (amount, some id) else best) (0, none)

def violations (s : Solution α) (p : Program α) : List (ConstraintId × α) :=
  p.rows.map fun (id, entry) => (id, entry.constraint.violation (s.eval entry.constraint.lhs))

def slacknesses (s : Solution α) (p : Program α) : List (ConstraintId × α) :=
  (p.rows.filter fun (_, entry) => entry.constraint.sense = .lessEq).map fun (id, entry) =>
    (id, Scalar.abs (s.multipliers.getD id.pos 0 * s.eval entry.constraint.lhs))

/-- The defects of a solution, in the order in which they are judged. -/
def defects (minEigenvalue : List α → Option α) (s : Solution α) (p : Program α) :
    List (Defect α) :=
  let violation := worst (s.violations p)
  let slackness := worst (s.slacknesses p)
  [⟨.primalPsd, negativePart (minEigenvalue s.gram), none⟩,
    ⟨.dualPsd, negativePart (minEigenvalue s.psd), none⟩,
    ⟨.feasibility, violation.1, violation.2⟩,
    ⟨.complementarySlackness, slackness.1, slackness.2⟩]

end Solution

namespace Program

/-- The solution of a program for an answer of the solver, not yet judged. An answer which is too
short holds none. -/
def read? (p : Program α) (x y : List α) : Option (Solution α) := do
  let gram ← p.gramOf? x
  let values ← p.valuesOf? x
  let duals ← p.dualsOf? y
  let solution : Solution α :=
    { worstCase := 0, order := p.order, gram, values := p.values.zip values
      multipliers := duals.multipliers, psd := duals.psd, warnings := [], certificate := none }
  return { solution with worstCase := solution.eval p.metric }

/-- Accepts a solution with the warnings it deserves, or refuses it for its first large defect. -/
def accept (b : Backend α) (par : Parameters α) (p : Program α) (s : Solution α) :
    Except (SolveError α) (Solution α) := do
  let warnings ← (s.defects b.minEigenvalue p).mapM par.judge
  let certificate :=
    if par.certificate then some (Certificate.extract p s.multipliers s.psd) else none
  return { s with warnings := warnings.flatten, certificate }

/-- Whether the normalized program has a worst case above the tolerance: the metric then grows along
a ray. -/
def growsAlongRay? (b : Backend α) (par : Parameters α) (p : Program α) :
    Option (Except SolverFault Bool) :=
  p.lowerNormalized?.map fun conic =>
    (b.solve par conic).map fun (x, _) => decide (par.failAbove < p.metricLinear x)

/-- The answer of the solver. Without columns there is nothing to ask. -/
def answer? (b : Backend α) (par : Parameters α) (p : Program α) :
    Option (Except (SolveError α) (List α × List α)) :=
  if p.width = 0 then some (.ok ([], []))
  else p.lower?.map fun conic => (b.solve par conic).mapError .ofFault

/-- Outcome of the search for a ray, made for a homogeneous program with columns. -/
def rayCheck? (b : Backend α) (par : Parameters α) (p : Program α) :
    Option (Except (SolveError α) Unit) :=
  if 0 < p.width && p.isHomogeneous then
    (p.growsAlongRay? b par).map fun
      | .error fault => .error (.ofFault fault)
      | .ok true => .error .unbounded
      | .ok false => .ok ()
  else some (.ok ())

/-- The worst case of a program. A program whose terms lie outside its matrices has no answer. -/
def solve? (b : Backend α) (par : Parameters α) (p : Program α) :
    Option (Except (SolveError α) (Solution α)) := do
  match ← p.rayCheck? b par with
  | .error e => return .error e
  | .ok () =>
    match ← p.answer? b par with
    | .error e => return .error e
    | .ok (x, y) => return p.accept b par (← p.read? x y)

end Program

end PerformanceEstimation
