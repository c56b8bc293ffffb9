import PerformanceEstimation.Index

/-!
# Packed symmetric matrices

A symmetric matrix is packed by columns of its upper triangle, so that the slots of the first `d`
rows and columns do not depend on how many more there are. In the scaled packing the entries off
the diagonal carry a factor of the square root of two, which makes the inner product of two matrices
that of their packings; `unscale` removes the factor.
-/

set_option autoImplicit false

namespace PerformanceEstimation

open Scalar

/-- Number of entries in the upper triangle of a matrix of order `d`. -/
def triangular (d : Nat) : Nat :=
  d * (d + 1) / 2

/-- The order of the matrix whose packing has the given length, if there is one. -/
def orderOfPacked? (length : Nat) : Option Nat :=
  (List.range (length + 1)).find? fun d => triangular d == length

theorem triangular_of_orderOfPacked? {length d : Nat} (h : orderOfPacked? length = some d) :
    triangular d = length := by
  simpa using List.find?_some h

/-- Position of a Gram entry in the packing. -/
def BasisPair.slot (p : BasisPair) : Nat :=
  triangular p.col.pos + p.row.pos

/-- Position of the inner product of two basis vectors in the packing, in either order. -/
def gramSlot (i j : BasisIndex) : Nat :=
  (BasisPair.of i j).slot

theorem gramSlot_comm (i j : BasisIndex) : gramSlot i j = gramSlot j i := by
  rw [gramSlot, BasisPair.of_comm, gramSlot]

/-- Entries of the upper triangle of order `d` in packed order. -/
def upperTriangle (d : Nat) : List BasisPair :=
  (List.range d).flatMap fun c => (List.range (c + 1)).map fun r => ⟨⟨r⟩, ⟨c⟩⟩

/-- Walks the packing from row `r` of column `c` on. -/
def unscaleFrom {α : Type} [Scalar α] : Nat → Nat → List α → List α
  | _, _, [] => []
  | r, c, a :: rest =>
    if r < c then a / sqrtTwo :: unscaleFrom (r + 1) c rest
    else a :: unscaleFrom 0 (c + 1) rest

/-- Divides the entries off the diagonal by the square root of two. -/
def unscale {α : Type} [Scalar α] (v : List α) : List α :=
  unscaleFrom 0 0 v

end PerformanceEstimation
