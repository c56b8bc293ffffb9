import PerformanceEstimation.Decimal.Rounded
import PerformanceEstimation.Error

/-!
# Error messages

The text of each error starts with the name of its cause. Values of parameters are written with
their shortest digits, defects in scientific form with three places.
-/

set_option autoImplicit false

namespace PerformanceEstimation

def CompositeFault.message : CompositeFault → String
  | noTerms => "no terms"
  | weightNotFinite => "weights must be finite"
  | termNotLeaf => "stationary point needs leaf terms"
  | lastWeightZero => "last weight must be nonzero"
  | triplesOnSum => "triples belong to leaf functions"

def ConstructionError.message : ConstructionError → String
  | unknownBasis i n => s!"UnknownBasis: basis {i} is not registered ({n} registered)"
  | unknownValue k n => s!"UnknownValue: value {k} is not registered ({n} registered)"
  | unknownFunction f n => s!"UnknownFunction: function {f} is not declared ({n} declared)"
  | basisCapacity n => s!"BasisCapacity: more than {n} basis vectors"
  | missingMetric => "MissingMetric: no performance metric is set"
  | metricAlreadySet => "MetricAlreadySet: the performance metric is already set"
  | invalidComposite f fault => s!"InvalidComposite: function {f}: {fault.message}"
  | poisoned => "Poisoned: session is unusable after a construction error"

def ParameterRule.message : ParameterRule → String
  | positive => "must be finite and positive"
  | nonnegative => "must be finite and nonnegative"
  | belowSmoothness => "must be less than l"

def ParameterError.message (e : ParameterError Float) : String :=
  s!"ClassParameter: {e.className}: {e.parameter} = {Decimal.shortest e.value} {e.rule.message}"

def Conflict.message (c : Conflict) : String :=
  match c.kind with
  | .duplicate => s!"Duplicate: equality {c.added} repeats equality {c.existing}"
  | .contradictory => s!"Contradictory: equality {c.added} contradicts equality {c.existing}"

def SolverFault.message : SolverFault → String
  | unbounded => "Unbounded: found an unbounded certificate"
  | infeasible => "Infeasible: found an infeasibile certificate"
  | iterationLimit => "ExcessIter: exceed max iterations"
  | invalidOperator => "InvalidOp: invalid Operator"
  | workTooShort => "WorkShortage: shortage of work slice length"
  | coneFailure => "ConeFailure: failure caused by Cone"

def ToleranceCheck.message : ToleranceCheck → String
  | primalPsd => "primal PSD"
  | dualPsd => "dual PSD"
  | feasibility => "feasibility"
  | complementarySlackness => "complementary slackness"

/-- Also the text of the warning for a tolerated defect. -/
def Defect.message (d : Defect Float) : String :=
  let place := d.constraint.elim "" fun c => s!" at constraint {c}"
  s!"{d.check.message} defect {Decimal.scientific 3 d.amount}{place}"

def SolveError.message : SolveError Float → String
  | infeasible => "Infeasible: constraints are infeasible"
  | unbounded => "Unbounded: performance metric is unbounded"
  | solver fault => s!"Solver: {fault.message}"
  | tolerance defect => s!"Tolerance: {defect.message}"

def SessionError.message : SessionError Float → String
  | construction e => e.message
  | classParameter e => e.message
  | conflict e => e.message
  | solve e => e.message

end PerformanceEstimation
