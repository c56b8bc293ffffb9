import PerformanceEstimation.Conic.Program
import PerformanceEstimation.Program.Basic

/-!
# Lowering to a conic program

Maximizing the metric is minimizing its negative. The row of a constraint holds the coefficients of
its expression and is bounded by the negated constant, so that a slack is what the left side lacks
to zero.

The normalized program also bounds the trace of the Gram matrix and every function value by one.
Its worst case is finite, and tells for a homogeneous program whether the metric grows along a ray.
-/

set_option autoImplicit false

namespace PerformanceEstimation.Program

open Scalar

variable {α : Type} [Scalar α]

/-- The coefficient which a row assigns to a column, of several the last. -/
def assigned (columns : List (Nat × α)) (c : Nat) : α :=
  columns.foldl (fun a (c', q) => if c' = c then q else a) 0

structure Row (α : Type) where
  columns : List (Nat × α)
  bound : α

def constraintRows (p : Program α) : List (Row α) :=
  p.rows.map fun (_, entry) =>
    let e := entry.constraint.lhs
    ⟨p.columns e, -e.constant⟩

/-- Rows which bound the trace of the Gram matrix and the function values by one. -/
def normalizingRows (p : Program α) : List (Row α) :=
  let trace := (List.range p.order).map fun i => (gramSlot ⟨i⟩ ⟨i⟩, 1)
  let bounds := (List.range p.values.length).flatMap fun k =>
    [⟨[(p.packed + k, 1)], 1⟩, ⟨[(p.packed + k, -1)], 1⟩]
  ⟨trace, 1⟩ :: bounds

/-- The conic program with the given rows. A column outside the matrix has no place. -/
def lowerRows? (p : Program α) (rows : List (Row α)) : Option (ConicProgram α) :=
  let cost := p.columns p.metric
  let width := p.width
  let inside (columns : List (Nat × α)) := columns.all fun (c, _) => c < width
  if h : inside cost ∧ (∀ row ∈ rows, inside row.columns) ∧ p.equalityCount ≤ rows.length then
    some {
      m := rows.length
      n := width
      equalities := p.equalityCount
      packed := p.packed
      order := p.order
      cost := .tabulate fun j _ => assigned (cost.map fun (c, q) => (c, -q)) j
      coefficients := .tabulate fun i j => assigned (rows.get i).columns j
      bounds := .tabulate fun i _ => (rows.get i).bound
      equalities_le := h.2.2
      packed_le := Nat.le_add_right ..
      packed_eq := rfl }
  else none

def lower? (p : Program α) : Option (ConicProgram α) :=
  p.lowerRows? p.constraintRows

def lowerNormalized? (p : Program α) : Option (ConicProgram α) :=
  p.lowerRows? (p.constraintRows ++ p.normalizingRows)

end PerformanceEstimation.Program
