import PerformanceEstimation.Index

/-!
# Symbolic points

A point, a gradient or an operator output is a linear combination of basis vectors. Its vectors
are never formed: only the basis indices and their coefficients are kept.
-/

set_option autoImplicit false

namespace PerformanceEstimation

open Scalar

/-- A linear combination of basis vectors, without zero coefficients. -/
structure Point (α : Type) where
  terms : Terms BasisIndex α

namespace Point

variable {α : Type} [Scalar α]

instance : BEq (Point α) := ⟨fun p q => p.terms == q.terms⟩

instance : Zero (Point α) := ⟨⟨[]⟩⟩

def ofBasis (i : BasisIndex) : Point α :=
  ⟨[(i, 1)]⟩

omit [Scalar α] in
def isZero (p : Point α) : Bool :=
  p.terms.isEmpty

def coefficient (p : Point α) (i : BasisIndex) : α :=
  p.terms.coefficient i

/-- The point `c * x + p`. -/
def axpy (p : Point α) (c : α) (x : Point α) : Point α :=
  ⟨p.terms.axpy c x.terms⟩

/-- The multiple `c * p`. Products which vanish are dropped. -/
def scale (p : Point α) (c : α) : Point α :=
  if Scalar.isZero c then 0
  else ⟨(p.terms.map fun (i, a) => (i, c * a)).filter fun (_, a) => !Scalar.isZero a⟩

instance : Add (Point α) := ⟨fun p q => p.axpy 1 q⟩

instance : Sub (Point α) := ⟨fun p q => p.axpy (-1) q⟩

instance : Neg (Point α) := ⟨fun p => p.scale (-1)⟩

instance : HMul α (Point α) (Point α) := ⟨fun c p => p.scale c⟩

/-- One coordinate of the point, for basis vectors whose coordinates are `b`. -/
def evalAt (b : BasisIndex → α) (p : Point α) : α :=
  p.terms.foldl (fun v (i, c) => v + c * b i) 0

end Point

end PerformanceEstimation
