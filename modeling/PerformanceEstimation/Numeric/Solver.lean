import PerformanceEstimation.Numeric.InteriorPoint
import PerformanceEstimation.Solve

/-!
# Numerical methods on doubles

The methods which a solve needs: eigenvalues and square roots by Jacobi rotations, and solutions of
conic programs by the interior-point method. A dual solution holds a multiplier for each row, then
the packed dual matrix.
-/

set_option autoImplicit false

namespace PerformanceEstimation.Numeric

/-- The work of a step, in iterations of a method which only multiplies by matrices. -/
def iterationsPerStep : Nat := 20

/-- Whether the search with `h = 0` shows that a program is infeasible. -/
def isInfeasible (search : ConeProblem → ConeOutcome) (P : ConeProblem) : Bool :=
  match search P.homogeneous with
  | .unbounded => true
  | _ => false

/-- Whether the search with `c = 0` shows that a program has no multipliers. -/
def lacksMultipliers (search : ConeProblem → ConeOutcome) (P : ConeProblem) : Bool :=
  match search P.costless with
  | .infeasible => true
  | _ => false

/-- Why a program without multipliers has no solution: it is unbounded, unless it is infeasible
too. -/
def faultWithoutMultipliers (search : ConeProblem → ConeOutcome) (P : ConeProblem) :
    SolverFault :=
  if isInfeasible search P then .infeasible else .unbounded

/-- Why a program has no solution for which the search was undecided. Where a certificate is only
approached, it shows more clearly if either `h` or `c` is left out. -/
def faultOfUndecided (search : ConeProblem → ConeOutcome) (P : ConeProblem) : SolverFault :=
  if isInfeasible search P then .infeasible
  else if lacksMultipliers search P then .unbounded
  else .iterationLimit

/-- Solves a conic program by its multipliers. If their search is unbounded, the program is
infeasible. -/
def solveConic (par : Parameters Float) (p : ConicProgram Float) :
    Except SolverFault (List Float × List Float) := do
  let steps := par.maxIterations.elim maxSteps fun n => min maxSteps (n / iterationsPerStep)
  if steps = 0 then throw .iterationLimit
  let space := MultiplierSpace.of (← Reduction.ofProgram p)
  let search (P : ConeProblem) := solveCone P steps par.accuracy par.infeasibility
  if space.reduction.isCostSpanned then
    match search space.problem with
    | .solved v => return ((space.primal v.z).toList, (space.dual v.x).toList)
    | .unbounded => throw .infeasible
    | .infeasible => throw (faultWithoutMultipliers search space.problem)
    | .undecided => throw (faultOfUndecided search space.problem)
  else throw (faultWithoutMultipliers search space.problem)

def backend : Backend Float where
  minEigenvalue := minEigenvalue
  squareRoot := squareRoot
  solve := solveConic

end PerformanceEstimation.Numeric
