import PerformanceEstimation.Numeric.Dense
import PerformanceEstimation.Packed

/-!
# Eigenvalues of symmetric matrices

The cyclic Jacobi method: plane rotations annihilate the entries off the diagonal one after the
other, until a sweep finds nothing left or the sweeps are used up. It gives the smallest eigenvalue,
the positive semidefinite square root, and the nearest positive semidefinite matrix.
-/

set_option autoImplicit false

namespace PerformanceEstimation.Numeric

structure Eigen where
  values : FloatArray
  vectors : Dense

/-- Cosine and sine of the rotation which annihilates `apq` between `app` and `aqq`. -/
def rotation (app apq aqq : Float) : Float × Float :=
  let θ := (aqq - app) / (2 * apq)
  let t := (if θ < 0 then -1 else 1) / (θ.abs + (θ * θ + 1).sqrt)
  let c := 1 / (t * t + 1).sqrt
  (c, t * c)

def rotateColumns (A : Dense) (p q : Nat) (c s : Float) : Dense := Id.run do
  let mut A := A
  for i in [0:A.rows] do
    let x := A.get i p
    let y := A.get i q
    A := A.set i p (c * x - s * y)
    A := A.set i q (s * x + c * y)
  return A

def rotateRows (A : Dense) (p q : Nat) (c s : Float) : Dense := Id.run do
  let mut A := A
  for j in [0:A.cols] do
    let x := A.get p j
    let y := A.get q j
    A := A.set p j (c * x - s * y)
    A := A.set q j (s * x + c * y)
  return A

/-- Most sweeps need fewer; the method converges quadratically. -/
def maxSweeps : Nat := 40

def eigen (A : Dense) : Eigen := Id.run do
  let n := A.rows
  let mut A := A
  let mut V := Dense.identity n
  for _ in [0:maxSweeps] do
    let mut rotated := false
    for p in [0:n] do
      for q in [p + 1:n] do
        let apq := A.get p q
        let app := A.get p p
        let aqq := A.get q q
        if 1e-17 * (app.abs + aqq.abs) < apq.abs then
          let (c, s) := rotation app apq aqq
          A := rotateRows (rotateColumns A p q c s) p q c s
          A := (A.set p q 0).set q p 0
          V := rotateColumns V p q c s
          rotated := true
    unless rotated do break
  return ⟨tabulate n fun i => A.get i i, V⟩

def Eigen.map (e : Eigen) (f : Float → Float) : Dense :=
  let n := e.values.size
  let images := tabulate n fun k => f (e.values.get! k)
  Dense.ofFn n n fun i j => Id.run do
    let mut s := 0
    for k in [0:n] do
      s := s + images.get! k * e.vectors.get i k * e.vectors.get j k
    return s

/-- A symmetric matrix from its packing, where entries off the diagonal carry the factor
`weight`. -/
def unpack (weight : Float) (order : Nat) (packed : FloatArray) : Dense :=
  Dense.ofFn order order fun i j =>
    let a := packed.get! (gramSlot ⟨i⟩ ⟨j⟩)
    if i = j then a else a / weight

def pack (weight : Float) (A : Dense) : FloatArray := Id.run do
  let mut v := FloatArray.emptyWithCapacity (triangular A.rows)
  for c in [0:A.rows] do
    for r in [0:c + 1] do
      v := v.push (if r = c then A.get r c else weight * A.get r c)
  return v

/-- The factor which makes the packing of symmetric matrices an isometry. -/
def isometric : Float :=
  Scalar.sqrtTwo

def unpackList (weight : Float) (packed : List Float) : Dense :=
  unpack weight ((orderOfPacked? packed.length).getD 0) ⟨packed.toArray⟩

def minEigenvalue (packed : List Float) : Option Float :=
  Scalar.minimum? (eigen (unpackList 1 packed)).values.toList

/-- Positive semidefinite square root of a packed matrix; negative eigenvalues count as zero. -/
def squareRoot (packed : List Float) : List Float :=
  let root := (eigen (unpackList 1 packed)).map fun e => if 0 < e then e.sqrt else 0
  (pack 1 root).toList

/-- Nearest positive semidefinite matrix, in the isometric packing. -/
def projectPsd (packed : List Float) : List Float :=
  let nearest := (eigen (unpackList isometric packed)).map (Scalar.max · 0)
  (pack isometric nearest).toList

end PerformanceEstimation.Numeric
