import PerformanceEstimation.Triple

/-!
# Function and operator classes

A class states which lists of triples some member can interpolate, as constraints on pairs of
triples. The parameters of a class are checked by `FunctionClass.validate`; the constraints come
from `FunctionClass.interpolation`, which does not look at the checks.

Rules for functions are not symmetric and run over ordered pairs. Rules for operators are, and run
over unordered pairs.
-/

set_option autoImplicit false

namespace PerformanceEstimation

open Scalar

inductive ParameterRule where
  | positive
  | nonnegative
  | belowSmoothness
  deriving DecidableEq, Repr

structure ParameterError (α : Type) where
  className : String
  parameter : String
  value : α
  rule : ParameterRule

/-- Refuses a parameter which is not finite and positive. -/
def checkPositive {α : Type} [Scalar α] (className parameter : String) (value : α) :
    Except (ParameterError α) Unit :=
  if isFinite value && decide (0 < value) then .ok ()
  else .error ⟨className, parameter, value, .positive⟩

inductive FunctionClass (α : Type) where
  /-- Closed convex proper functions. -/
  | convex
  /-- Convex functions which stay convex without the quadratic of modulus `mu`. -/
  | stronglyConvex (mu : α)
  /-- Convex functions whose subgradients have norm at most `m`. -/
  | convexLipschitz (m : α)
  /-- Functions whose gradient is Lipschitz with constant `l`. -/
  | smooth (l : α)
  | smoothConvex (l : α)
  | smoothStronglyConvex (mu l : α)
  | monotone
  | stronglyMonotone (mu : α)
  | lipschitz (l : α)
  | cocoercive (beta : α)
  /-- A class given by a rule on ordered pairs. -/
  | custom (name : String) (singleValued : Bool) (rule : Triple α → Triple α → Constraint α)

namespace FunctionClass

variable {α : Type}

def name : FunctionClass α → String
  | convex => "ConvexFunction"
  | stronglyConvex _ => "StronglyConvexFunction"
  | convexLipschitz _ => "ConvexLipschitzFunction"
  | smooth _ => "SmoothFunction"
  | smoothConvex _ => "SmoothConvexFunction"
  | smoothStronglyConvex .. => "SmoothStronglyConvexFunction"
  | monotone => "MonotoneOperator"
  | stronglyMonotone _ => "StronglyMonotoneOperator"
  | lipschitz _ => "LipschitzOperator"
  | cocoercive _ => "CocoerciveOperator"
  | custom name .. => name

/-- Whether the oracle has one output at a point. Otherwise each evaluation takes a new one. -/
def singleValued : FunctionClass α → Bool
  | convex | stronglyConvex _ | convexLipschitz _ | monotone | stronglyMonotone _ => false
  | smooth _ | smoothConvex _ | smoothStronglyConvex .. | lipschitz _ | cocoercive _ => true
  | custom _ singleValued _ => singleValued

variable [Scalar α]

/-- Checks the parameters; of a pair of them, the smoothness constant first. -/
def validate (c : FunctionClass α) : Except (ParameterError α) Unit :=
  match c with
  | convex | monotone | custom .. => .ok ()
  | stronglyConvex mu | stronglyMonotone mu => checkPositive c.name "mu" mu
  | convexLipschitz m => checkPositive c.name "m" m
  | smooth l | smoothConvex l | lipschitz l => checkPositive c.name "l" l
  | cocoercive beta => checkPositive c.name "beta" beta
  | smoothStronglyConvex mu l => do
    checkPositive c.name "l" l
    unless isFinite mu && decide (0 ≤ mu) do throw ⟨c.name, "mu", mu, .nonnegative⟩
    if l ≤ mu then throw ⟨c.name, "mu", mu, .belowSmoothness⟩

section Rules

variable (tk tl : Triple α)

/-- How far the value at `k` lies below the affine minorant at `l`. -/
def convexityGap : Expression α :=
  tl.value - tk.value + tl.gradient.inner (tk.point - tl.point)

def convexRule : Constraint α :=
  (convexityGap tk tl).le 0

def stronglyConvexRule (mu : α) : Constraint α :=
  let dx := tk.point - tl.point
  (convexityGap tk tl + (mu / 2 : α) * dx.normSq).le 0

def subgradientRule (m : α) (t : Triple α) : Constraint α :=
  t.gradient.normSq.le (.const (m * m))

def smoothRule (l : α) : Constraint α :=
  let dx := tk.point - tl.point
  let dg := tk.gradient - tl.gradient
  let sg := tk.gradient + tl.gradient
  (tl.value - tk.value
    + (1 / 2 : α) * sg.inner dx
    + (1 / (4 * l) : α) * dg.normSq
    - (l / 4 : α) * dx.normSq).le 0

def smoothConvexRule (l : α) : Constraint α :=
  let dx := tk.point - tl.point
  let dg := tk.gradient - tl.gradient
  (tl.value - tk.value
    + tl.gradient.inner dx
    + (1 / (2 * l) : α) * dg.normSq).le 0

def smoothStronglyConvexRule (mu l : α) : Constraint α :=
  let r : α := 1 / (2 * (1 - mu / l))
  let dx := tk.point - tl.point
  let dg := tk.gradient - tl.gradient
  (tl.value - tk.value
    + tl.gradient.inner dx
    + r * ((1 / l : α) * dg.normSq
      + mu * dx.normSq
      - (2 * mu / l : α) * dg.inner dx)).le 0

def monotoneRule : Constraint α :=
  let dx := tk.point - tl.point
  let dg := tk.gradient - tl.gradient
  (dg.inner dx).ge 0

def stronglyMonotoneRule (mu : α) : Constraint α :=
  let dx := tk.point - tl.point
  let dg := tk.gradient - tl.gradient
  (mu * dx.normSq).le (dg.inner dx)

def lipschitzRule (l : α) : Constraint α :=
  let dx := tk.point - tl.point
  let dg := tk.gradient - tl.gradient
  dg.normSq.le ((l * l : α) * dx.normSq)

def cocoerciveRule (beta : α) : Constraint α :=
  let dx := tk.point - tl.point
  let dg := tk.gradient - tl.gradient
  (beta * dg.normSq).le (dg.inner dx)

end Rules

open Interpolation in
/-- The constraints under which some member of the class interpolates the triples. -/
def interpolation (c : FunctionClass α) (triples : List (Triple α)) : List (Interpolation α) :=
  match c with
  | convex => orderedPairs convexRule triples
  | stronglyConvex mu => orderedPairs (stronglyConvexRule · · mu) triples
  | convexLipschitz m =>
    eachTriple (subgradientRule m) triples ++ orderedPairs convexRule triples
  | smooth l => orderedPairs (smoothRule · · l) triples
  | smoothConvex l => orderedPairs (smoothConvexRule · · l) triples
  | smoothStronglyConvex mu l => orderedPairs (smoothStronglyConvexRule · · mu l) triples
  | monotone => unorderedPairs monotoneRule triples
  | stronglyMonotone mu => unorderedPairs (stronglyMonotoneRule · · mu) triples
  | lipschitz l => unorderedPairs (lipschitzRule · · l) triples
  | cocoercive beta => unorderedPairs (cocoerciveRule · · beta) triples
  | custom _ _ rule => orderedPairs rule triples

end FunctionClass

end PerformanceEstimation
