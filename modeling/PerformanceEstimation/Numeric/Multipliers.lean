import PerformanceEstimation.Numeric.Reduction
import PerformanceEstimation.Numeric.Scaling

/-!
# The search for multipliers

The dual of a reduced program as a cone problem. Multipliers of its rows which cancel the cost of
the unknowns beside the matrix are `origin` plus a combination of `directions`; among them those of
inequalities and the dual matrix are to lie in the cone. The cone problem is to minimize `cᵀ t`
under `G t + s = h` with `s` in the cone, and the columns of `G` are independent.

A point `z` of the dual cone with `Gᵀ z + c = 0` holds the slacks of the inequalities and the primal
matrix; the other unknowns follow from the rows.
-/

set_option autoImplicit false

namespace PerformanceEstimation.Numeric

/-- Minimize `cᵀ t` under `G t + s = h` with `s` in the cone. `G` is given by its columns. -/
structure ConeProblem where
  cone : Cone
  c : FloatArray
  G : Array FloatArray
  h : FloatArray

namespace ConeProblem

def image (P : ConeProblem) (t : FloatArray) : FloatArray :=
  combine P.h.size P.G t

def coimage (P : ConeProblem) (z : FloatArray) : FloatArray :=
  tabulate P.G.size fun j => inner z.size P.G[j]! z

def homogeneous (P : ConeProblem) : ConeProblem :=
  { P with h := zeros P.h.size }

def costless (P : ConeProblem) : ConeProblem :=
  { P with c := zeros P.c.size }

end ConeProblem

/-- The multipliers of a reduced program which cancel the cost beside the matrix. -/
structure MultiplierSpace where
  reduction : Reduction
  /-- What the rows say about each of the other unknowns, by columns. -/
  factors : Orthogonal
  origin : FloatArray
  directions : Array FloatArray

namespace MultiplierSpace

def of (r : Reduction) : MultiplierSpace :=
  let rows := r.rows
  let factors := orthogonalize <|
    (Array.range r.span.size).map fun j => tabulate rows.size fun i => (rows[i]!).values.get! j
  let units := (Array.range rows.size).map (unitVector rows.size)
  { reduction := r
    factors
    origin := combine rows.size factors.columns (factors.solveTranspose (scaled (-1) r.valuesCost))
    directions := (extendBasis 0.1 factors.columns units).extract r.span.size }

/-- The multipliers of inequalities and the matrix to which rows add up with some multipliers. -/
def coneVector (r : Reduction) (multiplier : FloatArray) : FloatArray :=
  append (slice multiplier r.equalities.size r.inequalities.size)
    (combine r.matrixCost.size (r.rows.map (·.matrix)) multiplier)

def bounds (r : Reduction) : FloatArray :=
  let rows := r.rows
  tabulate rows.size fun i => (rows[i]!).bound

def problem (m : MultiplierSpace) : ConeProblem :=
  let r := m.reduction
  { cone := ⟨r.inequalities.size, r.face.degree⟩
    c := Reduction.products m.directions (bounds r)
    G := m.directions.map fun v => scaled (-1) (coneVector r v)
    h := addScaled (append (zeros r.inequalities.size) r.matrixCost) 1 (coneVector r m.origin) }

/-- The unknowns of the program for a point `z` of the dual cone. -/
def primal (m : MultiplierSpace) (z : FloatArray) : FloatArray :=
  let r := m.reduction
  let rows := r.rows
  let k := r.equalities.size
  let matrix := slice z r.inequalities.size r.matrixCost.size
  let rest := tabulate rows.size fun i =>
    let row := rows[i]!
    let slack := if i < k then 0 else z.get! (i - k)
    row.bound - slack - inner matrix.size row.matrix matrix
  r.primal matrix (m.factors.solve (m.factors.coordinates rest))

/-- The multipliers of all rows of the program and its dual matrix, for a point `t`. -/
def dual (m : MultiplierSpace) (t : FloatArray) : FloatArray :=
  m.reduction.dual (addScaled (combine m.origin.size m.directions t) 1 m.origin)

end MultiplierSpace

end PerformanceEstimation.Numeric
