import PerformanceEstimation.Matrix
import PerformanceEstimation.Packed

/-!
# Conic programs

A conic program minimizes `c · x` under `A x + s = b` for a slack `s`. The first slacks are zero,
the next are nonnegative, and the last are those of the constraints `-x₁ + s = 0` on the leading
variables, which hold the scaled packing of a positive semidefinite matrix. The operators below are
those of the stacked matrices `[A; -I 0]` and `[b; 0]`, for any number of leading variables
(`ConicData`); only the cone asks that they pack a matrix (`ConicProgram`).
-/

set_option autoImplicit false

namespace PerformanceEstimation

open Scalar

/-- Costs, rows and bounds. As many leading variables as `packed` have slacks of their own. -/
structure ConicData (α : Type) where
  m : Nat
  n : Nat
  /-- The rows whose slack is zero come first. -/
  equalities : Nat
  packed : Nat
  cost : Matrix α n 1
  coefficients : Matrix α m n
  bounds : Matrix α m 1
  equalities_le : equalities ≤ m
  packed_le : packed ≤ n

/-- A program whose leading variables pack a symmetric matrix. -/
structure ConicProgram (α : Type) extends ConicData α where
  order : Nat
  packed_eq : packed = triangular order

variable {α : Type}

namespace ConicData

/-- Data from rows of matching dimensions. -/
def ofRows? (cost : List α) (rows : List (List α)) (bounds : List α) (equalities packed : Nat) :
    Option (ConicData α) :=
  if h : rows.length = bounds.length ∧ (∀ row ∈ rows, row.length = cost.length) ∧
      equalities ≤ rows.length ∧ packed ≤ cost.length then
    some {
      m := rows.length
      n := cost.length
      equalities, packed
      cost := .tabulate fun j _ => cost.get j
      coefficients := .tabulate fun i j =>
        (rows.get i).get (j.cast (h.2.1 _ (List.get_mem rows i)).symm)
      bounds := .tabulate fun i _ => bounds.get (i.cast h.1)
      equalities_le := h.2.2.1
      packed_le := h.2.2.2 }
  else none

/-- Splits a vector in two; a vector which is too short has no parts. -/
def split? (length : Nat) (xs : List α) : Option (List α × List α) :=
  if length ≤ xs.length then some (xs.take length, xs.drop length) else none

variable [Scalar α]

/-- Cost of a variable, zero outside the program. -/
def costAt (p : ConicData α) (j : Nat) : α :=
  if hj : j < p.n then p.cost.entry ⟨j, hj⟩ 0 else 0

def coefficientAt (p : ConicData α) (i j : Nat) : α :=
  if h : i < p.m ∧ j < p.n then p.coefficients.entry ⟨i, h.1⟩ ⟨j, h.2⟩ else 0

def boundAt (p : ConicData α) (i : Nat) : α :=
  if hi : i < p.m then p.bounds.entry ⟨i, hi⟩ 0 else 0

def addMultiple (alpha : α) : List α → List α → List α
  | x :: xs, y :: ys => (y + alpha * x) :: addMultiple alpha xs ys
  | _, ys => ys

def costOperator (p : ConicData α) : LinearOperator α :=
  p.cost.operator

/-- The operator of the rows stacked on the negated leading variables. -/
def constraintOperator (p : ConicData α) : LinearOperator α where
  height := p.m + p.packed
  width := p.n
  mulAdd? alpha x beta y := do
    let (yRows, y) ← split? p.m y
    let (yPacked, y) ← split? p.packed y
    let (xPacked, _) ← split? p.packed x
    let yRows ← p.coefficients.mulAdd? alpha x beta yRows
    return yRows ++ addMultiple (-alpha) xPacked (yPacked.map (beta * ·)) ++ y
  transposeMulAdd? alpha x beta y := do
    let (xRows, x) ← split? p.m x
    let (xPacked, _) ← split? p.packed x
    let y ← p.coefficients.transpose.mulAdd? alpha xRows beta y
    let (yPacked, y) ← split? p.packed y
    return addMultiple (-alpha) xPacked yPacked ++ y
  addAbsRows? y := do
    let (yRows, y) ← split? p.m y
    let (yPacked, y) ← split? p.packed y
    let yRows ← p.coefficients.addAbsRows? yRows
    return yRows ++ yPacked.map (· + 1) ++ y
  addAbsColumns? y := do
    let y ← p.coefficients.addAbsColumns? y
    let (yPacked, y) ← split? p.packed y
    return yPacked.map (· + 1) ++ y

def boundOperator (p : ConicData α) : LinearOperator α where
  height := p.m + p.packed
  width := 1
  mulAdd? alpha x beta y := do
    let (yRows, y) ← split? p.m y
    let (yPacked, y) ← split? p.packed y
    let yRows ← p.bounds.mulAdd? alpha x beta yRows
    return yRows ++ yPacked.map (beta * ·) ++ y
  transposeMulAdd? alpha x beta y := do
    let (xRows, _) ← split? p.m x
    p.bounds.transpose.mulAdd? alpha xRows beta y
  addAbsRows? y := do
    let (yRows, y) ← split? p.m y
    let yRows ← p.bounds.addAbsRows? yRows
    return yRows ++ y
  addAbsColumns? := p.bounds.addAbsColumns?

end ConicData

namespace ConicProgram

open ConicData

/-- The program with the given data, if a matrix has a packing of that length. -/
def ofData? (d : ConicData α) : Option (ConicProgram α) :=
  match h : orderOfPacked? d.packed with
  | none => none
  | some order => some { d with order, packed_eq := (triangular_of_orderOfPacked? h).symm }

def workLength (p : ConicProgram α) : Nat :=
  let height := p.m + p.packed
  4 * (p.n + 2 * height + 1) + 2 * (p.n + height + 1)

structure Blocks (α : Type) where
  equalities : List α
  inequalities : List α
  packed : List α
  rest : List α

def blocks? (p : ConicProgram α) (x : List α) : Option (Blocks α) := do
  let (equalities, x) ← split? p.equalities x
  let (inequalities, x) ← split? (p.m - p.equalities) x
  let (packed, rest) ← split? p.packed x
  return { equalities, inequalities, packed, rest }

def Blocks.toList (b : Blocks α) : List α :=
  b.equalities ++ b.inequalities ++ b.packed ++ b.rest

variable [Scalar α]

/-- Nearest point of the cone of slacks, or of its dual, given the nearest point of the cone of
packed positive semidefinite matrices. Only the zero cone differs from its dual. -/
def project? (p : ConicProgram α) (projectPacked : List α → List α) (dual : Bool) (x : List α) :
    Option (List α) :=
  (p.blocks? x).map fun b =>
    { b with
      equalities := if dual then b.equalities else b.equalities.map (0 * ·)
      inequalities := b.inequalities.map (Scalar.max · 0)
      packed := projectPacked b.packed : Blocks α }.toList

/-- Lets `group` act on each block of slacks that a solver has to scale as a whole. Only a packed
matrix is such a block. -/
def mapGroups? (p : ConicProgram α) (group : List α → List α) (x : List α) : Option (List α) :=
  (p.blocks? x).map fun b => { b with packed := group b.packed : Blocks α }.toList

end ConicProgram

end PerformanceEstimation
