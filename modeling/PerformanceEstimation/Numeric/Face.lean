import PerformanceEstimation.Conic.Program
import PerformanceEstimation.Numeric.Factor

/-!
# Faces of the positive semidefinite cone

A row `⟨A, X⟩ ≤ 0` with a positive semidefinite matrix `A` holds for a positive semidefinite `X`
only if `X` annihilates the range of `A`. Such a **forcing** row leaves no interior point. The
matrices which obey it form a face: they are `V Y Vᵀ` with a smaller positive semidefinite `Y`,
where the columns of `V` span the kernel of `A`.

An index which no row and no cost mentions is **idle**: nothing changes if its row and column of
`X` vanish, so that the face leaves it out too.

In the dual, the multiplier of a forcing row may grow without bound. `Face.raise` makes it large
enough for the dual matrix to be positive semidefinite, up to a small number.
-/

set_option autoImplicit false

namespace PerformanceEstimation.Numeric

/-- A row that confines the matrix to a face, with its matrix, packed, of the sign which makes it
positive semidefinite. -/
structure Forcing where
  row : Nat
  sign : Float
  packed : FloatArray

def isNonzeroPsd (A : Dense) : Bool :=
  let values := (eigen A).values
  let largest := values.foldl Scalar.max 0
  0 < largest && -1e-12 * largest ≤ values.foldl Scalar.min 0

def rowVector (p : ConicProgram Float) (i : Nat) : FloatArray :=
  tabulate p.n (p.coefficientAt i)

def costVector (p : ConicProgram Float) : FloatArray :=
  tabulate p.n p.costAt

/-- The row at position `i`, if it is forcing. An equality may be so with either sign. -/
def Forcing.ofRow? (p : ConicProgram Float) (i : Nat) : Option Forcing :=
  let coefficients := rowVector p i
  let onMatrixOnly := p.boundAt i == 0 &&
    (List.range (p.n - p.packed)).all fun j => coefficients.get! (p.packed + j) == 0
  let signs : List Float := if i < p.equalities then [1, -1] else [1]
  signs.findSome? fun sign =>
    let packed := tabulate p.packed fun j => sign * coefficients.get! j
    if onMatrixOnly && isNonzeroPsd (unpack isometric p.order packed) then some ⟨i, sign, packed⟩
    else none

/-- The indices of the matrix which no row and no cost mentions. -/
def idleIndices (p : ConicProgram Float) : List Nat :=
  let vectors := costVector p :: (List.range p.m).map (rowVector p)
  (List.range p.order).filter fun i =>
    vectors.all fun v => (List.range p.order).all fun j => v.get! (gramSlot ⟨i⟩ ⟨j⟩) == 0

/-- The matrices of a given order which annihilate some vectors. The columns of `support` and of
`kernel` together are orthonormal, and those of `kernel` are annihilated. -/
structure Face where
  order : Nat
  support : Dense
  kernel : Dense
  forcing : List Forcing
  /-- Smallest factor by which the forcing rows stretch the vectors annihilated for them. -/
  strength : Float

namespace Face

def selectColumns (A : Dense) (positions : Array Nat) : Dense :=
  Dense.ofFn A.rows positions.size fun i k => A.get i positions[k]!

def raiseDiagonal (A : Dense) (a : Float) (indices : List Nat) : Dense :=
  indices.foldl (fun A i => A.set i i (A.get i i + a)) A

/-- The face to which all the forcing rows together confine the matrix, without the idle indices. -/
def of (order : Nat) (forcing : List Forcing) (idle : List Nat) : Face :=
  if forcing.isEmpty && idle.isEmpty then
    { order, support := .identity order, kernel := .zero order 0, forcing, strength := 1 }
  else
    let packed := forcing.foldl (fun sum f => addScaled sum 1 f.packed) (zeros (triangular order))
    let total := unpack isometric order packed
    let e := eigen (raiseDiagonal total (1 + norm total.data) idle)
    let cutoff := 1e-9 * (eigen total).values.foldl Scalar.max 0
    let stretched := (Array.range order).filter fun k => cutoff < e.values.get! k
    let others := (Array.range order).filter fun k => !(cutoff < e.values.get! k)
    { order
      support := selectColumns e.vectors others
      kernel := selectColumns e.vectors stretched
      forcing
      strength := stretched.foldl (fun least k => Scalar.min least (e.values.get! k)) (1 / 0) }

def ofProgram (p : ConicProgram Float) : Face :=
  of p.order ((List.range p.m).filterMap (Forcing.ofRow? p)) (idleIndices p)

def isForcing (f : Face) (row : Nat) : Bool :=
  f.forcing.any (·.row == row)

def degree (f : Face) : Nat :=
  f.support.cols

/-- The packing of `Vᵀ X V` for a packed matrix `X`. -/
def restrict (f : Face) (packed : FloatArray) : FloatArray :=
  let X := unpack isometric f.order packed
  pack isometric (f.support.transpose.mul (X.mul f.support))

/-- The packing of `V Y Vᵀ` for a packed matrix `Y`. -/
def extend (f : Face) (packed : FloatArray) : FloatArray :=
  let Y := unpack isometric f.degree packed
  pack isometric (f.support.mul (Y.mul f.support.transpose))

/-- The defect that a dual matrix may keep. -/
def slack : Float := 1e-7

/-- The largest multiple, relative to the dual matrix, which leaves it half of its digits. -/
def headroom : Float := 1e8

/-- The multiple of the forcing rows that makes a dual matrix positive semidefinite up to `slack`,
or as far as doubles allow, if it is so on the face. -/
def raise (f : Face) (dual : FloatArray) : Float :=
  let image := (unpack isometric f.order dual).mul f.kernel
  let inside := norm (f.kernel.transpose.mul image).data
  let across := norm (f.support.transpose.mul image).data
  (inside + across * Scalar.min (across / slack) headroom) / f.strength

end Face

end PerformanceEstimation.Numeric
