import PerformanceEstimation.Scalar

/-!
# Dense matrices and linear operators

A `Matrix` is a table of entries. A `LinearOperator` is what a first-order conic solver asks of a
matrix: products with vectors, also of the transpose, and the sums of absolute values along its
rows and columns. Vectors are lists, and a vector of the wrong length has no product.
-/

set_option autoImplicit false

namespace PerformanceEstimation

open Scalar

structure Matrix (α : Type) (m n : Nat) where
  entry : Fin m → Fin n → α

namespace Matrix

variable {α : Type} {m n : Nat}

/-- The matrix with the given entries, each of them computed once. -/
def tabulate (f : Fin m → Fin n → α) : Matrix α m n :=
  let table := Vector.ofFn fun i => Vector.ofFn (f i)
  ⟨fun i j => table[i][j]⟩

@[simp] theorem entry_tabulate (f : Fin m → Fin n → α) (i : Fin m) (j : Fin n) :
    (tabulate f).entry i j = f i j := by
  simp [tabulate]

def rows (A : Matrix α m n) : List (List α) :=
  List.ofFn fun i => List.ofFn (A.entry i)

def transpose (A : Matrix α m n) : Matrix α n m :=
  ⟨fun j i => A.entry i j⟩

variable [Scalar α]

/-- Sum of the products of matching entries, from left to right. -/
def dot (as xs : List α) : α :=
  (as.zip xs).foldl (fun s (a, x) => s + a * x) 0

/-- The vector `alpha * A * x + beta * y`. A matrix without entries leaves `beta * y`, whatever the
length of `x`. -/
def mulAdd? (A : Matrix α m n) (alpha : α) (x : List α) (beta : α) (y : List α) :
    Option (List α) :=
  if m = 0 ∨ n = 0 then some (y.map (beta * ·))
  else if x.length = n ∧ y.length = m then
    some (A.rows.zipWith (fun row yi => alpha * dot row x + beta * yi) y)
  else none

def addAbsSums (rows : List (List α)) (y : List α) : List α :=
  rows.zipWith (fun row yi => row.foldl (fun s a => s + Scalar.abs a) 0 + yi) y

/-- Adds to each entry of `y` the sum of absolute values of its row, zero for a row without
entries. -/
def addAbsRows? (A : Matrix α m n) (y : List α) : Option (List α) :=
  if y.length = m then some (addAbsSums A.rows y) else none

def addAbsColumns? (A : Matrix α m n) (y : List α) : Option (List α) :=
  A.transpose.addAbsRows? y

end Matrix

/-- A matrix by its products with vectors and its sums of absolute values. -/
structure LinearOperator (α : Type) where
  height : Nat
  width : Nat
  /-- The vector `alpha * M * x + beta * y`. -/
  mulAdd? : (alpha : α) → (x : List α) → (beta : α) → (y : List α) → Option (List α)
  /-- The same with the transpose of the matrix. -/
  transposeMulAdd? : (alpha : α) → (x : List α) → (beta : α) → (y : List α) → Option (List α)
  addAbsRows? : List α → Option (List α)
  addAbsColumns? : List α → Option (List α)

def Matrix.operator {α : Type} [Scalar α] {m n : Nat} (A : Matrix α m n) : LinearOperator α where
  height := m
  width := n
  mulAdd? := A.mulAdd?
  transposeMulAdd? := A.transpose.mulAdd?
  addAbsRows? := A.addAbsRows?
  addAbsColumns? := A.addAbsColumns?

end PerformanceEstimation
