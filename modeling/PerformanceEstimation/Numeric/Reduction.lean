import PerformanceEstimation.Error
import PerformanceEstimation.Numeric.Face

/-!
# Reduced programs

A conic program in coordinates in which nothing is redundant: the matrix on its face, the other
unknowns in the span of what the rows say about them, equalities with orthonormal rows, and
inequalities with rows of unit length. `Reduction.primal` and `Reduction.dual` carry solutions back.

Equalities that contradict each other make the program infeasible, as does an inequality that says
nothing on the face but has a negative bound.
-/

set_option autoImplicit false

namespace PerformanceEstimation.Numeric

structure ReducedRow where
  matrix : FloatArray
  values : FloatArray
  bound : Float
  deriving Inhabited

structure Reduction where
  program : ConicProgram Float
  face : Face
  /-- Orthonormal vectors which span what the rows say about the unknowns beside the matrix. -/
  span : Array FloatArray
  /-- The equalities as they are stated, on the face. -/
  stated : Array FloatArray
  /-- An orthonormal basis of their span. -/
  basis : Array FloatArray
  /-- The equalities for the vectors of that basis. -/
  equalities : Array ReducedRow
  /-- Positions of the inequalities which are kept. -/
  positions : Array Nat
  /-- Factors which bring these inequalities to unit length. -/
  weights : FloatArray
  inequalities : Array ReducedRow
  matrixCost : FloatArray
  valuesCost : FloatArray
  /-- Whether the cost lies in the span of the rows. If not, it decreases without bound along a
  direction without constraints. -/
  isCostSpanned : Bool

namespace Reduction

/-- Vectors shorter than this, relative to the data, count as zero. -/
def tolerance : Float := 1e-9

def longest (vectors : Array FloatArray) : Float :=
  vectors.foldl (fun m v => Scalar.max m (norm v)) 1

def products (vectors : Array FloatArray) (v : FloatArray) : FloatArray :=
  tabulate vectors.size fun i => inner v.size vectors[i]! v

/-- The products of rows with the vectors of an orthonormal basis, by columns, as factors. -/
def rowFactors (basis rows : Array FloatArray) : Orthogonal :=
  orthogonalize (basis.map (products rows))

/-- The coordinates on an orthonormal basis of the point whose products with the rows are the given
bounds, in the sense of least squares. -/
def leastSquares (basis rows : Array FloatArray) (bounds : FloatArray) : FloatArray :=
  let F := rowFactors basis rows
  F.solve (F.coordinates bounds)

/-- Coefficients with which the rows combine to the vector that has the given coordinates on an
orthonormal basis of their span. -/
def multipliers (basis rows : Array FloatArray) (coordinates : FloatArray) : FloatArray :=
  let F := rowFactors basis rows
  combine rows.size F.columns (F.solveTranspose coordinates)

/-- The factor which brings a vector to unit length, one if there is none. -/
def unitWeight (v : FloatArray) : Float :=
  let length := norm v
  if 0 < length && length.isFinite then 1 / length else 1

def ofProgram (p : ConicProgram Float) : Except SolverFault Reduction := do
  let face := Face.ofProgram p
  let size := triangular face.degree
  -- Rows on the face, and what they say about the other unknowns.
  let onFace (v : FloatArray) : FloatArray :=
    append (face.restrict (slice v 0 p.packed)) (slice v p.packed (p.n - p.packed))
  let row (i : Nat) : FloatArray := onFace (rowVector p i)
  let stated := (Array.range p.equalities).map row
  let inequalities := ((Array.range p.m).filter fun i => p.equalities ≤ i && !face.isForcing i).map
    fun i => (i, row i)
  -- Inequalities that say nothing on the face.
  let isEmpty (i : Nat) (v : FloatArray) : Bool :=
    norm v ≤ tolerance * norm (rowVector p i)
  if inequalities.any fun (i, v) => isEmpty i v && p.boundAt i < -tolerance then throw .infeasible
  let inequalities := inequalities.filter fun (i, v) => !isEmpty i v
  let weights := tabulate inequalities.size fun k => unitWeight (inequalities[k]!).2
  let units := inequalities.mapIdx fun k (_, v) => scaled (weights.get! k) v
  -- The span of the unknowns beside the matrix.
  let values (v : FloatArray) : FloatArray := slice v size (p.n - p.packed)
  let said := (stated.map fun v => values (scaled (unitWeight v) v)) ++ units.map values
  let span := extendBasis tolerance #[] said
  let reduce (v : FloatArray) (bound : Float) : ReducedRow :=
    ⟨slice v 0 size, products span (values v), bound⟩
  let cost := onFace (costVector p)
  let valuesCost := products span (values cost)
  let ignored := addScaled (values cost) (-1) (combine (p.n - p.packed) span valuesCost)
  -- Equalities.
  let bounds := tabulate p.equalities p.boundAt
  let basis := extendBasis (tolerance * longest stated) #[] stated
  let levels := leastSquares basis stated bounds
  let misfit := addScaled (products stated (combine cost.size basis levels)) (-1) bounds
  if tolerance * (1 + norm bounds) < norm misfit then throw .infeasible
  return {
    program := p
    face, span, stated, basis
    equalities := basis.mapIdx fun k v => reduce v (levels.get! k)
    positions := inequalities.map (·.1)
    weights
    inequalities := units.mapIdx fun k v =>
      reduce v (weights.get! k * p.boundAt (inequalities[k]!).1)
    matrixCost := slice cost 0 size
    valuesCost
    isCostSpanned := norm ignored ≤ tolerance * (1 + norm cost) }

def rows (r : Reduction) : Array ReducedRow :=
  r.equalities ++ r.inequalities

def primal (r : Reduction) (matrix values : FloatArray) : FloatArray :=
  append (r.face.extend matrix) (combine (r.program.n - r.program.packed) r.span values)

/-- The multipliers of all rows and the dual matrix, for multipliers of the reduced rows. Whatever
keeps the matrix on its face goes into the dual matrix, and the forcing rows are raised to make up
for it. -/
def dual (r : Reduction) (multiplier : FloatArray) : FloatArray := Id.run do
  let p := r.program
  let balance := multipliers r.basis r.stated (slice multiplier 0 r.basis.size)
  let mut y := zeros p.m
  for i in [0:p.equalities] do
    y := y.set! i (balance.get! i)
  for k in [0:r.positions.size] do
    y := y.set! r.positions[k]! (r.weights.get! k * multiplier.get! (r.basis.size + k))
  let mut psd := slice (costVector p) 0 p.packed
  for i in [0:p.m] do
    psd := addScaled psd (y.get! i) (rowVector p i)
  let raise := r.face.raise psd
  for f in r.face.forcing do
    y := y.set! f.row (y.get! f.row + raise * f.sign)
    psd := addScaled psd raise f.packed
  return append y psd

end Reduction

end PerformanceEstimation.Numeric
