import PerformanceEstimation.Numeric.Eigen

/-!
# Factorizations

Cholesky factors of positive definite matrices, singular values by one-sided Jacobi rotations, and
orthonormal bases by the Gram-Schmidt process, of which a step that loses length is done twice.
-/

set_option autoImplicit false

namespace PerformanceEstimation.Numeric

/-- The lower triangular factor of a positive definite matrix. A matrix with a pivot that is not
positive has none. -/
def cholesky? (A : Dense) : Option Dense := Id.run do
  let n := A.rows
  let mut L := Dense.zero n n
  for j in [0:n] do
    let mut d := A.get j j
    for k in [0:j] do
      d := d - L.get j k * L.get j k
    unless 0 < d do return none
    let pivot := d.sqrt
    L := L.set j j pivot
    for i in [j + 1:n] do
      let mut s := A.get i j
      for k in [0:j] do
        s := s - L.get i k * L.get j k
      L := L.set i j (s / pivot)
  return some L

/-- The decomposition of a square matrix as `U diag(values) Vᵀ`. -/
structure Singular where
  left : Dense
  values : FloatArray
  right : Dense

/-- Singular values and vectors, by rotations which make the columns orthogonal. -/
def singular (A : Dense) : Singular := Id.run do
  let n := A.cols
  let mut B := A.columns
  let mut V := (Dense.identity n).columns
  for _ in [0:maxSweeps] do
    let mut rotated := false
    for p in [0:n] do
      for q in [p + 1:n] do
        let x := B[p]!
        let y := B[q]!
        let pp := inner n x x
        let pq := inner n x y
        let qq := inner n y y
        if 1e-15 * (pp * qq).sqrt < pq.abs then
          let (c, s) := rotation pp pq qq
          B := (B.set! p (mix c x (-s) y)).set! q (mix s x c y)
          let x := V[p]!
          let y := V[q]!
          V := (V.set! p (mix c x (-s) y)).set! q (mix s x c y)
          rotated := true
    unless rotated do break
  let columns := B
  let values := tabulate n fun j => norm columns[j]!
  return ⟨Dense.ofFn n n fun i j => (columns[j]!).get! i / values.get! j, values, .ofColumns n V⟩

def removeComponents (basis : Array FloatArray) (v : FloatArray) :
    FloatArray × FloatArray := Id.run do
  let mut v := v
  let mut components := FloatArray.emptyWithCapacity basis.size
  for q in basis do
    let c := inner v.size q v
    components := components.push c
    v := addScaled v (-c) q
  return (v, components)

/-- What remains of a vector without its components along orthonormal ones, and the components. A
remainder that is much shorter than the vector is cleared of the components once more. -/
def projectOut (basis : Array FloatArray) (v : FloatArray) : FloatArray × FloatArray :=
  let (rest, components) := removeComponents basis v
  if norm rest < 0.7 * norm v then
    let (rest, corrections) := removeComponents basis rest
    (rest, addScaled components 1 corrections)
  else (rest, components)

/-- Extends orthonormal vectors by those needed to span the given vectors too, the longest remainder
first. A remainder below the tolerance counts as zero. -/
def extendBasis (tolerance : Float) (basis vectors : Array FloatArray) :
    Array FloatArray := Id.run do
  let mut basis := basis
  let mut rest := vectors.map fun v => (projectOut basis v).1
  for _ in [0:vectors.size] do
    let longest := rest.foldl (fun best v => if norm best < norm v then v else best) ⟨#[]⟩
    unless tolerance < norm longest do break
    let (v, _) := projectOut basis longest
    let q := scaled (1 / norm v) v
    basis := basis.push q
    rest := rest.map fun v => addScaled v (-inner v.size q v) q
  return basis

/-- Orthonormal columns `Q` and an upper triangular matrix `R` with product `Q R`. -/
structure Orthogonal where
  columns : Array FloatArray
  triangle : Dense

/-- Orthogonalizes columns from left to right. A column that depends on those before is given a
huge entry on the diagonal, so that it takes no part in a solution. -/
def orthogonalize (columns : Array FloatArray) : Orthogonal := Id.run do
  let n := columns.size
  let mut Q : Array FloatArray := #[]
  let mut R := Dense.zero n n
  for j in [0:n] do
    let a := columns[j]!
    let (v, components) := projectOut Q a
    for i in [0:j] do
      R := R.set i j (components.get! i)
    let length := norm v
    if 1e-14 * norm a < length then
      R := R.set j j length
      Q := Q.push (scaled (1 / length) v)
    else
      R := R.set j j 1e300
      Q := Q.push (zeros a.size)
  return ⟨Q, R⟩

namespace Orthogonal

def solve (F : Orthogonal) (b : FloatArray) : FloatArray := Id.run do
  let n := F.columns.size
  let mut x := b
  for step in [0:n] do
    let i := n - 1 - step
    let mut s := x.get! i
    for j in [i + 1:n] do
      s := s - F.triangle.get i j * x.get! j
    x := x.set! i (s / F.triangle.get i i)
  return x

def solveTranspose (F : Orthogonal) (b : FloatArray) : FloatArray := Id.run do
  let n := F.columns.size
  let mut x := b
  for i in [0:n] do
    let mut s := x.get! i
    for j in [0:i] do
      s := s - F.triangle.get j i * x.get! j
    x := x.set! i (s / F.triangle.get i i)
  return x

def coordinates (F : Orthogonal) (v : FloatArray) : FloatArray :=
  tabulate F.columns.size fun i => inner v.size F.columns[i]! v

end Orthogonal

def combine (size : Nat) (columns : Array FloatArray) (x : FloatArray) : FloatArray := Id.run do
  let mut v := zeros size
  for i in [0:columns.size] do
    let c := x.get! i
    unless c == 0 do v := addScaled v c columns[i]!
  return v

end PerformanceEstimation.Numeric
