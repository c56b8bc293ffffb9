import PerformanceEstimation.Numeric.Factor

/-!
# Scalings of the cone

The cone is a product of `m` nonnegative numbers and a positive semidefinite matrix of a given
order, in the isometric packing. A vector of the cone is its numbers followed by the packed matrix.

For two interior points `s` and `z` there is a linear map `W` of the cone onto itself with
`W z = W⁻ᵀ s`; the common image is diagonal, and its entries are kept as `image`.
-/

set_option autoImplicit false

namespace PerformanceEstimation.Numeric

/-- The cone of `m` nonnegative numbers and a matrix. -/
structure Cone where
  m : Nat
  order : Nat

namespace Cone

def size (K : Cone) : Nat :=
  K.m + triangular K.order

/-- The number whose central multiple has unit complementarity: one for each number and for each
row of the matrix. -/
def degree (K : Cone) : Nat :=
  K.m + K.order

def matrix (K : Cone) (v : FloatArray) : Dense :=
  unpack isometric K.order (tabulate (triangular K.order) fun i => v.get! (K.m + i))

def vector (K : Cone) (number : Nat → Float) (A : Dense) : FloatArray :=
  let packed := pack isometric A
  tabulate K.size fun i => if i < K.m then number i else packed.get! (i - K.m)

def unit (K : Cone) : FloatArray :=
  K.vector (fun _ => 1) (Dense.identity K.order)

end Cone

/-- The map which sends two interior points to the same diagonal one. -/
structure Scaling where
  cone : Cone
  factors : FloatArray
  /-- The matrix `R` with `Rᵀ Z R = R⁻¹ S R⁻ᵀ`. -/
  root : Dense
  rootInverse : Dense
  /-- Entries of the common image: those of the numbers, then the diagonal of the matrix. -/
  image : FloatArray

namespace Scaling

def of? (K : Cone) (s z : FloatArray) : Option Scaling := do
  for i in [0:K.m] do
    guard (0 < s.get! i && 0 < z.get! i)
  let Ls ← cholesky? (K.matrix s)
  let Lz ← cholesky? (K.matrix z)
  let d := K.order
  let e := singular (Lz.transpose.mul Ls)
  let root := Ls.mul e.right
  let inverse := e.left.transpose.mul Lz.transpose
  let weight (k : Nat) := 1 / (e.values.get! k).sqrt
  return {
    cone := K
    factors := tabulate K.m fun i => (s.get! i / z.get! i).sqrt
    root := Dense.ofFn d d fun i j => root.get i j * weight j
    rootInverse := Dense.ofFn d d fun i j => weight i * inverse.get i j
    image := tabulate K.degree fun i =>
      if i < K.m then (s.get! i * z.get! i).sqrt else e.values.get! (i - K.m) }

/-- The congruence `Aᵀ V A` on the matrix of a vector, with a factor on each number. -/
def congruence (K : Cone) (number : Nat → Float) (A : Dense) (v : FloatArray) : FloatArray :=
  K.vector (fun i => number i * v.get! i) (A.transpose.mul ((K.matrix v).mul A))

/-- The map `W`. -/
def scale (W : Scaling) (v : FloatArray) : FloatArray :=
  congruence W.cone (fun i => W.factors.get! i) W.root v

/-- The map `Wᵀ`. -/
def scaleTranspose (W : Scaling) (v : FloatArray) : FloatArray :=
  congruence W.cone (fun i => W.factors.get! i) W.root.transpose v

/-- The map `W⁻ᵀ`. -/
def unscaleTranspose (W : Scaling) (v : FloatArray) : FloatArray :=
  congruence W.cone (fun i => 1 / W.factors.get! i) W.rootInverse.transpose v

/-- The map `W⁻¹`. -/
def unscale (W : Scaling) (v : FloatArray) : FloatArray :=
  congruence W.cone (fun i => 1 / W.factors.get! i) W.rootInverse v

/-- The solution `x` of `image ∘ x = v` for the symmetrized product. -/
def divide (W : Scaling) (v : FloatArray) : FloatArray :=
  let m := W.cone.m
  let V := W.cone.matrix v
  W.cone.vector (fun i => v.get! i / W.image.get! i) <|
    Dense.ofFn W.cone.order W.cone.order fun i j =>
      2 * V.get i j / (W.image.get! (m + i) + W.image.get! (m + j))

def product (K : Cone) (u v : FloatArray) : FloatArray :=
  let U := K.matrix u
  let V := K.matrix v
  let UV := U.mul V
  K.vector (fun i => u.get! i * v.get! i) <|
    Dense.ofFn K.order K.order fun i j => (UV.get i j + UV.get j i) / 2

def imageVector (W : Scaling) : FloatArray :=
  W.cone.vector (fun i => W.image.get! i) <|
    Dense.ofFn W.cone.order W.cone.order fun i j =>
      if i = j then W.image.get! (W.cone.m + i) else 0

/-- Sum of the squared entries of the common image, the complementarity of the two points. -/
def complementarity (W : Scaling) : Float :=
  inner W.image.size W.image W.image

/-- The largest decrease per unit of step, relative to the common image, along a scaled direction:
the cone is left after its reciprocal. -/
def decrease (W : Scaling) (v : FloatArray) : Float :=
  let K := W.cone
  let V := K.matrix v
  let relative := Dense.ofFn K.order K.order fun i j =>
    V.get i j / ((W.image.get! (K.m + i)).sqrt * (W.image.get! (K.m + j)).sqrt)
  let numbers := tabulate K.m fun i => v.get! i / W.image.get! i
  let least := numbers.foldl Scalar.min ((eigen relative).values.foldl Scalar.min 0)
  least.abs

end Scaling

end PerformanceEstimation.Numeric
