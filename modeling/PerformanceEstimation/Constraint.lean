import PerformanceEstimation.Expression

/-!
# Constraints

A constraint bounds an expression by zero or makes it zero. `Constraint.HoldsAt` says when numbers
in the place of the unknowns satisfy it, `Constraint.violation` by how much a value fails to.
A constraint on a constant is decided at once: it is trivially satisfied or trivially violated.
-/

set_option autoImplicit false

namespace PerformanceEstimation

open Scalar

inductive Sense where
  | lessEq
  | equal
  deriving DecidableEq, Repr

structure Constraint (α : Type) where
  lhs : Expression α
  sense : Sense

namespace Constraint

variable {α : Type} [Scalar α]

instance : BEq (Constraint α) := ⟨fun c d => c.lhs == d.lhs && c.sense == d.sense⟩

/-- How far a value of the left side lies from satisfying the constraint; zero if it does. -/
def violation (c : Constraint α) (value : α) : α :=
  match c.sense with
  | .lessEq => Scalar.max value 0
  | .equal => Scalar.abs value

def isTriviallySatisfied (c : Constraint α) : Bool :=
  c.lhs.isConstant && isZero (c.violation c.lhs.constant)

def isTriviallyViolated (c : Constraint α) : Bool :=
  c.lhs.isConstant && decide (0 < c.violation c.lhs.constant)

/-- Whether the constraint takes part in the program as an equality or inequality row. -/
def isActive (c : Constraint α) (sense : Sense) : Bool :=
  c.sense == sense && !c.lhs.isConstant

/-- Whether given Gram entries and function values satisfy the constraint. -/
def HoldsAt (gram : BasisPair → α) (value : ValueIndex → α) (c : Constraint α) : Prop :=
  match c.sense with
  | .lessEq => c.lhs.evalAt gram value ≤ 0
  | .equal => c.lhs.evalAt gram value = 0

end Constraint

namespace Expression

variable {α : Type} [Scalar α]

def le (e rhs : Expression α) : Constraint α :=
  ⟨e - rhs, .lessEq⟩

def ge (e rhs : Expression α) : Constraint α :=
  ⟨rhs - e, .lessEq⟩

def equals (e rhs : Expression α) : Constraint α :=
  ⟨e - rhs, .equal⟩

end Expression

/-- The constraint that two points coincide, stated as a vanishing squared distance. -/
def Point.coincide {α : Type} [Scalar α] (p q : Point α) : Constraint α :=
  (p - q).normSq.equals 0

end PerformanceEstimation
