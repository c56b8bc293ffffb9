import PerformanceEstimation.Program.Basic

/-!
# Certificates

A certificate bounds a metric `m` by `β`: with a multiplier `λ` for each constraint `e` and a
symmetric matrix `S` it states the identity `m = ∑ λ e - ⟨S, G⟩ + β` in the unknowns. If the
multipliers of inequalities are nonnegative and `S` is positive semidefinite, no feasible unknowns
exceed `β`.

`Certificate.verify` rebuilds the identity symbolically and measures by how much it and the two sign
conditions fail; `CertificateCheck.isValid` accepts failures up to a tolerance.
-/

set_option autoImplicit false

namespace PerformanceEstimation

open Scalar

structure CertificateEntry (α : Type) where
  id : ConstraintId
  origin : ConstraintOrigin
  constraint : Constraint α
  multiplier : α

/-- Multipliers and a packed matrix which bound a metric. -/
structure Certificate (α : Type) where
  metric : Expression α
  entries : List (CertificateEntry α)
  order : Nat
  psd : List α
  bound : α

/-- How far a certificate is from a proof of its bound. A minimum over nothing is absent. -/
structure CertificateCheck (α : Type) where
  bound : α
  /-- Largest coefficient of the identity which does not cancel. -/
  residual : α
  minMultiplier : Option α
  minEigenvalue : Option α

variable {α : Type} [Scalar α]

namespace CertificateCheck

/-- Whether a minimum is at least `bound`. An absent minimum is, unless `bound` is no number. -/
def atLeast (bound : α) : Option α → Bool
  | none => isNumber bound
  | some a => bound ≤ a

def isValid (c : CertificateCheck α) (tolerance : α) : Bool :=
  decide (c.residual ≤ tolerance) && atLeast (-tolerance) c.minMultiplier
    && atLeast (-tolerance) c.minEigenvalue

end CertificateCheck

namespace Certificate

/-- The certificate of a program for multipliers of its stored constraints and a packed matrix. It
has an entry for each row, in row order, that has a multiplier. -/
def extract (p : Program α) (multipliers psd : List α) : Certificate α :=
  let entries := p.rows.filterMap fun (id, entry) =>
    multipliers[id.pos]?.map fun multiplier =>
      { id, origin := entry.origin, constraint := entry.constraint, multiplier }
  { metric := p.metric
    entries
    order := p.order
    psd
    bound := entries.foldl (fun bound e => bound - e.multiplier * e.constraint.lhs.constant)
      p.metric.constant }

def active (c : Certificate α) (tolerance : α) : List (CertificateEntry α) :=
  c.entries.filter fun e => tolerance < Scalar.abs e.multiplier

/-- What remains of the metric after the bound and the weighted constraints are taken off. -/
def remainder (c : Certificate α) : Expression α :=
  c.entries.foldl (fun rest e => rest.axpy (-e.multiplier) e.constraint.lhs)
    (c.metric.subConst c.bound)

/-- Coefficient with which the matrix meets a Gram entry. -/
def gramWeight (c : Certificate α) (pair : BasisPair) : α :=
  let s := c.psd.getD pair.slot 0
  if pair.isDiagonal then s else 2 * s

/-- Coefficients of the identity, which are to cancel. -/
def defects (c : Certificate α) : List α :=
  let rest := c.remainder
  rest.values.map (·.2)
    ++ (upperTriangle c.order).map fun pair =>
      rest.gramCoefficient pair.row pair.col + c.gramWeight pair

/-- Measures how far the certificate is from a proof. `minEigenvalue` gives the smallest eigenvalue
of a packed matrix. -/
def verify (minEigenvalue : List α → Option α) (c : Certificate α) : CertificateCheck α where
  bound := c.bound
  residual :=
    c.defects.foldl (fun m a => Scalar.max m (Scalar.abs a)) (Scalar.abs c.remainder.constant)
  minMultiplier := minimum? <|
    (c.entries.filter (·.constraint.sense = .lessEq)).map (·.multiplier)
  minEigenvalue := minEigenvalue c.psd

/-- The check of a certificate whose matrix fits its order. A larger matrix, which weighs entries
outside the identity, has none. -/
def verify? (minEigenvalue : List α → Option α) (c : Certificate α) :
    Option (CertificateCheck α) :=
  if c.psd.length ≤ triangular c.order then some (c.verify minEigenvalue) else none

end Certificate

end PerformanceEstimation
