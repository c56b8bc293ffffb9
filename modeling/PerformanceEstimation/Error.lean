import PerformanceEstimation.FunctionClass

/-!
# Errors

An error says why a session or a solve stopped. Everything but a `SolveError` arises while the
session is being declared, and makes it unusable (`SessionError.isConstructionTime`).
-/

set_option autoImplicit false

namespace PerformanceEstimation

/-- What makes a weighted sum of functions invalid, or an operation on it. -/
inductive CompositeFault where
  | noTerms
  | weightNotFinite
  | termNotLeaf
  | lastWeightZero
  | triplesOnSum
  deriving DecidableEq, Repr

inductive ConstructionError where
  | unknownBasis (index : BasisIndex) (registered : Nat)
  | unknownValue (index : ValueIndex) (registered : Nat)
  | unknownFunction (function : FunctionId) (declared : Nat)
  | basisCapacity (capacity : Nat)
  | missingMetric
  | metricAlreadySet
  | invalidComposite (function : FunctionId) (fault : CompositeFault)
  | poisoned
  deriving DecidableEq, Repr

/-- How two equalities on the same unknowns are related. -/
inductive ConflictKind where
  | duplicate
  | contradictory
  deriving DecidableEq, Repr

structure Conflict where
  kind : ConflictKind
  existing : ConstraintId
  added : ConstraintId
  deriving DecidableEq, Repr

inductive SolverFault where
  | unbounded
  | infeasible
  | iterationLimit
  | invalidOperator
  | workTooShort
  | coneFailure
  deriving DecidableEq, Repr

/-- The numerical checks on a solution, in the order in which they are made. -/
inductive ToleranceCheck where
  | primalPsd
  | dualPsd
  | feasibility
  | complementarySlackness
  deriving DecidableEq, Repr

/-- The amount by which a solution misses a check, and the constraint responsible for it. -/
structure Defect (α : Type) where
  check : ToleranceCheck
  amount : α
  constraint : Option ConstraintId

inductive SolveError (α : Type) where
  | infeasible
  | unbounded
  | solver (fault : SolverFault)
  | tolerance (defect : Defect α)

/-- A solver which finds a certificate of infeasibility or unboundedness decides the problem. -/
def SolveError.ofFault {α : Type} : SolverFault → SolveError α
  | .infeasible => .infeasible
  | .unbounded => .unbounded
  | fault => .solver fault

inductive SessionError (α : Type) where
  | construction (e : ConstructionError)
  | classParameter (e : ParameterError α)
  | conflict (e : Conflict)
  | solve (e : SolveError α)

def SessionError.isConstructionTime {α : Type} : SessionError α → Bool
  | .solve _ => false
  | _ => true

end PerformanceEstimation
