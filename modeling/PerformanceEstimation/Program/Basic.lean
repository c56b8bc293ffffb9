import PerformanceEstimation.Packed
import PerformanceEstimation.Store

/-!
# Assembled programs

A `Program` is a constraint store with a metric to maximize over the Gram matrices of a fixed order
and the function values. Rows are the constraints which involve an unknown: the equalities, then the
inequalities, each in store order. Columns are the packed Gram entries, then the function values
that the metric or a row refers to, in ascending order.

A vector over the columns is a primal solution; `Program.gramOf?` and `Program.valuesOf?` read the
unknowns from it. A vector over the rows followed by a packed matrix is a dual one, which
`Program.dualsOf?` attributes to the constraints.
-/

set_option autoImplicit false

namespace PerformanceEstimation

open Scalar

def insertAscending {κ : Type} [Key κ] (k : κ) : List κ → List κ
  | [] => [k]
  | j :: rest =>
    if k < j then k :: j :: rest else if k = j then j :: rest else j :: insertAscending k rest

/-- Constraints, a metric to maximize, and the order of the Gram matrix. -/
structure Program (α : Type) where
  store : Store α
  metric : Expression α
  order : Nat

namespace Program

variable {α : Type} [Scalar α]

/-- Refuses a store with a constant constraint which never holds. -/
def assemble (store : Store α) (metric : Expression α) (order : Nat) :
    Except (SolveError α) (Program α) :=
  if store.triviallyViolated?.isSome then .error .infeasible else .ok ⟨store, metric, order⟩

/-- Constraints which involve an unknown, in row order. -/
def rows (p : Program α) : List (ConstraintId × StoredConstraint α) :=
  p.store.active .equal ++ p.store.active .lessEq

def rowIds (p : Program α) : List ConstraintId :=
  p.rows.map (·.1)

/-- Function values to which the metric or a row refers, ascending. -/
def values (p : Program α) : List ValueIndex :=
  let expressions := p.metric :: p.rows.map (·.2.constraint.lhs)
  (expressions.flatMap (·.values.map (·.1))).foldl (fun ks k => insertAscending k ks) []

def packed (p : Program α) : Nat :=
  triangular p.order

def equalityCount (p : Program α) : Nat :=
  (p.store.active .equal).length

def inequalityCount (p : Program α) : Nat :=
  (p.store.active .lessEq).length

def width (p : Program α) : Nat :=
  p.packed + p.values.length

def valueSlot? (p : Program α) (k : ValueIndex) : Option Nat :=
  p.values.idxOf? k

/-- Columns with the coefficients of an expression. A coefficient off the diagonal meets an unknown
which carries the square root of two. -/
def columns (p : Program α) (e : Expression α) : List (Nat × α) :=
  let values := p.values
  e.gram.map (fun (pair, q) => (pair.slot, if pair.isDiagonal then q else q / sqrtTwo))
    ++ e.values.filterMap fun (k, a) => (values.idxOf? k).map fun slot => (p.packed + slot, a)

/-- Whether no row has a constant, so that the feasible unknowns form a cone. -/
def isHomogeneous (p : Program α) : Bool :=
  p.rows.all fun (_, entry) => isZero entry.constraint.lhs.constant

/-- The metric without its constant at a primal solution. Missing entries count as zero. -/
def metricLinear (p : Program α) (x : List α) : α :=
  sum ((p.columns p.metric).map fun (c, q) => q * x.getD c 0)

def gramOf? (p : Program α) (x : List α) : Option (List α) :=
  if p.packed ≤ x.length then some (unscale (x.take p.packed)) else none

def valuesOf? (p : Program α) (x : List α) : Option (List α) :=
  if p.width ≤ x.length then some ((x.drop p.packed).take p.values.length) else none

/-- Multipliers of all stored constraints, zero for those which are no rows, and the packed dual
matrix. -/
structure Duals (α : Type) where
  multipliers : List α
  psd : List α

def dualsOf? (p : Program α) (y : List α) : Option (Duals α) :=
  let ids := p.rowIds
  if ids.length + p.packed ≤ y.length then
    some {
      multipliers := p.store.items.map fun (id, _) =>
        ((ids.idxOf? id).map fun r => y.getD r 0).getD 0
      psd := unscale ((y.drop ids.length).take p.packed) }
  else none

end Program

end PerformanceEstimation
