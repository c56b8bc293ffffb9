import PerformanceEstimation.Decimal.Reading
import PerformanceEstimation.Text.Blank

/-!
# Parameters

Parameters of a session and of its solver. `Parameters.override` replaces those for which a
variable holds a number; a missing variable, or one that does not read, changes nothing.
-/

set_option autoImplicit false

namespace PerformanceEstimation

structure Parameters (α : Type) where
  /-- Bound on the iterations of the solver, if there is one. -/
  maxIterations : Option Nat
  /-- Accuracy of the residuals and of the duality gap. -/
  accuracy : α
  /-- Accuracy of certificates of unboundedness and infeasibility. -/
  infeasibility : α
  /-- The size below which a positive number counts as zero in the solver. -/
  zero : α
  /-- Iterations between two progress reports. -/
  reportPeriod : Nat
  /-- Largest number of basis vectors. -/
  maxBasis : Nat
  /-- Defects above this, and above the accuracy, are reported with the solution. -/
  warnAbove : α
  /-- Defects above this make the solve fail. -/
  failAbove : α
  /-- Whether a solution carries its certificate. -/
  certificate : Bool

namespace Parameters

def standard : Parameters Float where
  maxIterations := some 1000000
  accuracy := 1e-6
  infeasibility := 1e-6
  zero := 1e-12
  reportPeriod := 10000
  maxBasis := 1024
  warnAbove := 1e-5
  failAbove := 1e-3
  certificate := true

/-- Width in bits of counts. -/
def countBits : Nat := 64

def readVariable? {β : Type} (read? : String → Option β) (text : Option String) : Option β :=
  text.bind fun t => read? (trimBlank t)

/-- The parameters with those replaced that a variable sets. -/
def override (lookup? : String → Option String) (p : Parameters Float) : Parameters Float :=
  let float? (name : String) := readVariable? Decimal.readFloat? (lookup? name)
  let count? (name : String) := readVariable? (Decimal.readNat? countBits) (lookup? name)
  { p with
    maxIterations := count? "PEP_MAX_ITER" <|> p.maxIterations
    accuracy := (float? "PEP_EPS_ACC").getD p.accuracy
    infeasibility := (float? "PEP_EPS_INF").getD p.infeasibility
    zero := (float? "PEP_EPS_ZERO").getD p.zero
    reportPeriod := (count? "PEP_LOG_PERIOD").getD p.reportPeriod
    maxBasis := (count? "PEP_MAX_BASIS").getD p.maxBasis }

end Parameters

end PerformanceEstimation
