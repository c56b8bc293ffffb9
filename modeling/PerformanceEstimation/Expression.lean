import PerformanceEstimation.Point

/-!
# Symbolic scalar expressions

An expression is linear in function values and in Gram entries, plus a constant. Inner products of
points are expressions: `Point.inner` expands them over the Gram entries, where the two orders of
a pair of basis vectors fold into one key. `Expression.evalAt` is its value for numbers in the
place of the unknowns.
-/

set_option autoImplicit false

namespace PerformanceEstimation

open Scalar

/-- A linear combination of function values and Gram entries, plus a constant. -/
structure Expression (α : Type) where
  values : Terms ValueIndex α
  gram : Terms BasisPair α
  constant : α

namespace Expression

variable {α : Type} [Scalar α]

instance : BEq (Expression α) :=
  ⟨fun e f => e.values == f.values && e.gram == f.gram && e.constant == f.constant⟩

def const (c : α) : Expression α :=
  ⟨[], [], c⟩

instance : Zero (Expression α) := ⟨const 0⟩

def ofValue (k : ValueIndex) : Expression α :=
  ⟨[(k, 1)], [], 0⟩

omit [Scalar α] in
def isConstant (e : Expression α) : Bool :=
  e.values.isEmpty && e.gram.isEmpty

/-- Coefficient of the inner product of two basis vectors, in either order. -/
def gramCoefficient (e : Expression α) (i j : BasisIndex) : α :=
  e.gram.coefficient (BasisPair.of i j)

def valueCoefficient (e : Expression α) (k : ValueIndex) : α :=
  e.values.coefficient k

def linearPart (e : Expression α) : Expression α :=
  { e with constant := 0 }

/-- The expression `c * x + e`. -/
def axpy (e : Expression α) (c : α) (x : Expression α) : Expression α where
  values := e.values.axpy c x.values
  gram := e.gram.axpy c x.gram
  constant := e.constant + c * x.constant

def scale (e : Expression α) (c : α) : Expression α :=
  (0 : Expression α).axpy c e

instance : Add (Expression α) := ⟨fun e f => e.axpy 1 f⟩

instance : Sub (Expression α) := ⟨fun e f => e.axpy (-1) f⟩

instance : Neg (Expression α) := ⟨fun e => e.scale (-1)⟩

instance : HMul α (Expression α) (Expression α) := ⟨fun c e => e.scale c⟩

def addConst (e : Expression α) (c : α) : Expression α :=
  { e with constant := e.constant + 1 * c }

def subConst (e : Expression α) (c : α) : Expression α :=
  { e with constant := e.constant + -1 * c }

def maxAbsCoefficient (e : Expression α) : α :=
  (e.values.map (·.2) ++ e.gram.map (·.2)).foldl (fun m c => Scalar.max m (Scalar.abs c)) 0

/-- Value of the expression for given Gram entries and function values. -/
def evalAt (gram : BasisPair → α) (value : ValueIndex → α) (e : Expression α) : α :=
  e.values.foldl (fun v (k, c) => v + c * value k)
    (e.gram.foldl (fun v (p, c) => v + c * gram p) e.constant)

end Expression

namespace Point

variable {α : Type} [Scalar α]

/-- The products `c * c'` of all pairs of coefficients, each added to its Gram entry, one basis
vector of `p` after the other. -/
def inner (p q : Point α) : Expression α where
  values := []
  gram := p.terms.foldl
    (fun t (i, c) => t.axpy c (q.terms.map fun (j, c') => (BasisPair.of i j, c'))) []
  constant := 0

/-- The squared norm, zero without any Gram entry for the zero point. -/
def normSq (p : Point α) : Expression α :=
  p.inner p

end Point

end PerformanceEstimation
