import PerformanceEstimation.Numeric.Multipliers

/-!
# An interior-point method for cone problems

A problem and its dual are embedded in one self-dual system

    Gᵀ z + c τ = 0,   -G x + h τ = s,   -cᵀ x - hᵀ z = κ

with `s` and `z` in the cone and `τ`, `κ` nonnegative. Its central path is followed by predictor and
corrector steps. A limit with positive `τ` is a solution of both problems; one with positive `κ`
certifies that the problem is infeasible or unbounded.
-/

set_option autoImplicit false

namespace PerformanceEstimation.Numeric

structure Iterate where
  x : FloatArray
  s : FloatArray
  z : FloatArray
  τ : Float
  κ : Float

/-- How far a point of the embedding is from solving its three equations. -/
structure Residuals where
  dual : FloatArray
  primal : FloatArray
  gap : Float

namespace Iterate

def start (P : ConeProblem) : Iterate where
  x := zeros P.c.size
  s := P.cone.unit
  z := P.cone.unit
  τ := 1
  κ := 1

def step (v : Iterate) (α : Float) (d : Iterate) : Iterate where
  x := addScaled v.x α d.x
  s := addScaled v.s α d.s
  z := addScaled v.z α d.z
  τ := v.τ + α * d.τ
  κ := v.κ + α * d.κ

/-- The same ray of the embedding, scaled. -/
def rescale (v : Iterate) (c : Float) : Iterate where
  x := scaled c v.x
  s := scaled c v.s
  z := scaled c v.z
  τ := c * v.τ
  κ := c * v.κ

def dualValue (P : ConeProblem) (v : Iterate) : Float :=
  inner P.h.size P.h v.z

def primalValue (P : ConeProblem) (v : Iterate) : Float :=
  inner P.c.size P.c v.x

def residuals (P : ConeProblem) (v : Iterate) : Residuals where
  dual := addScaled (P.coimage v.z) v.τ P.c
  primal := addScaled (addScaled (scaled (-1) (P.image v.x)) v.τ P.h) (-1) v.s
  gap := -v.primalValue P - v.dualValue P - v.κ

end Iterate

/-- How close a point is to a solution, and to a certificate that there is none. -/
structure Progress where
  optimality : Float
  /-- What rounding may add to a residual of multipliers as large as these. -/
  rounding : Float
  infeasibility : Float
  unboundedness : Float

def farAway : Float := 1e300

/-- A certificate that data changed by this much, relative to its size, do not admit counts as
none. -/
def margin : Float := 1e-10

def roundoff : Float := 1e-16

/-- Measures a point. Residuals are relative to the data, the gap is relative to the values. -/
def Iterate.progress (P : ConeProblem) (v : Iterate) : Progress :=
  let r := v.residuals P
  let larger := fun a b : Float => Scalar.max a b
  let primalSize := larger 1 (norm P.h)
  let dualSize := larger 1 (norm P.c)
  let primal := v.primalValue P / v.τ
  let dual := -v.dualValue P / v.τ
  let gap := (primal - dual).abs / (1 + primal.abs + dual.abs)
  let residual := larger (norm r.primal / primalSize) (norm r.dual / dualSize) / v.τ
  let descent := -v.primalValue P
  let ascent := -v.dualValue P
  let ray := addScaled (P.image v.x) 1 v.s
  { optimality := larger residual gap
    rounding := roundoff * norm v.x / primalSize / v.τ
    infeasibility :=
      if margin * primalSize * norm v.z < ascent then norm (P.coimage v.z) / ascent / dualSize
      else farAway
    unboundedness :=
      if margin * dualSize * norm v.x < descent then norm ray / descent / primalSize
      else farAway }

structure StepSystem where
  problem : ConeProblem
  scaling : Scaling
  factors : Orthogonal

namespace StepSystem

def of (P : ConeProblem) (W : Scaling) : StepSystem :=
  ⟨P, W, orthogonalize (P.G.map W.unscaleTranspose)⟩

def solveOnce (S : StepSystem) (b d : FloatArray) : FloatArray × FloatArray :=
  let F := S.factors
  let W := S.scaling
  let d := W.unscaleTranspose d
  let coordinates := addScaled (F.solveTranspose b) 1 (F.coordinates d)
  let w := addScaled (combine d.size F.columns coordinates) (-1) d
  (F.solve coordinates, W.unscale w)

def refinements : Nat := 2

/-- Solves `Gᵀ w = b` and `G u - Wᵀ W w = d`, with corrections by the residual. -/
def solve (S : StepSystem) (b d : FloatArray) : FloatArray × FloatArray := Id.run do
  let P := S.problem
  let W := S.scaling
  let (u₀, w₀) := S.solveOnce b d
  let mut u := u₀
  let mut w := w₀
  for _ in [0:refinements] do
    let image := addScaled (P.image u) (-1) (W.scaleTranspose (W.scale w))
    let (du, dw) := S.solveOnce (addScaled b (-1) (P.coimage w)) (addScaled d (-1) image)
    u := addScaled u 1 du
    w := addScaled w 1 dw
  return (u, w)

/-- The direction which shrinks the residuals by the factor `1 - η` and moves the complementarity
products by `products`, with `balance` for the pair of `τ` and `κ`. -/
def direction (S : StepSystem) (v : Iterate) (fixed : FloatArray × FloatArray) (η : Float)
    (products : FloatArray) (balance : Float) : Iterate :=
  let P := S.problem
  let W := S.scaling
  let r := v.residuals P
  let keep := 1 - η
  let q := W.divide products
  let (x₁, z₁) := fixed
  let (x₂, z₂) := S.solve (scaled (-keep) r.dual)
    (addScaled (scaled keep r.primal) (-1) (W.scaleTranspose q))
  let value (x z : FloatArray) := inner P.c.size P.c x + inner P.h.size P.h z
  let τ := (balance / v.τ - keep * r.gap + value x₂ z₂) / (v.κ / v.τ - value x₁ z₁)
  let x := addScaled x₂ τ x₁
  let z := addScaled z₂ τ z₁
  { x
    s := addScaled (addScaled (scaled keep r.primal) τ P.h) (-1) (P.image x)
    z
    τ
    κ := (balance - v.κ * τ) / v.τ }

/-- The longest step, of at most one, which leaves the point in the cone. -/
def longestStep (S : StepSystem) (v d : Iterate) : Float :=
  let W := S.scaling
  let rates :=
    [W.decrease (W.unscaleTranspose d.s), W.decrease (W.scale d.z), -d.τ / v.τ, -d.κ / v.κ]
  1 / rates.foldl Scalar.max 1

end StepSystem

def Iterate.advance? (P : ConeProblem) (v : Iterate) : Option Iterate := do
  let W ← Scaling.of? P.cone v.s v.z
  let S := StepSystem.of P W
  let fixed := S.solve (scaled (-1) P.c) P.h
  let image := W.imageVector
  let towardBoundary := scaled (-1) (Scaling.product P.cone image image)
  let predictor := S.direction v fixed 0 towardBoundary (-v.τ * v.κ)
  let reach := S.longestStep v predictor
  let σ := (1 - reach) * (1 - reach) * (1 - reach)
  let μ := (W.complementarity + v.τ * v.κ) / (Float.ofNat P.cone.degree + 1)
  let second := Scaling.product P.cone (W.unscaleTranspose predictor.s) (W.scale predictor.z)
  let products := addScaled (addScaled towardBoundary (σ * μ) P.cone.unit) (-1) second
  let balance := σ * μ - v.τ * v.κ - predictor.τ * predictor.κ
  let corrector := S.direction v fixed σ products balance
  let next := v.step (0.98 * S.longestStep v corrector) corrector
  guard (0 < next.τ && 0 < next.κ)
  return next.rescale (1 / Scalar.max next.τ next.κ)

/-- What is found out about a cone problem. A solution has `τ = 1`. -/
inductive ConeOutcome where
  | solved (v : Iterate)
  | infeasible
  | unbounded
  | undecided

/-- What a run has found: its last point, the best solution with its error, and the accuracies of
the best solution and the best certificates. -/
structure Run where
  last : Iterate
  best : Option (Iterate × Float)
  optimality : Float
  infeasibility : Float
  unboundedness : Float

namespace Run

/-- Refinement beyond this accuracy is not worth a step. -/
def target : Float := 1e-11

def note (P : ConeProblem) (r : Run) (v : Iterate) : Run :=
  let p := v.progress P
  let error := Scalar.max p.optimality p.rounding
  let better : Bool := error < r.best.elim farAway (·.2)
  { last := v
    best := if better then some (v, error) else r.best
    optimality := Scalar.min r.optimality p.optimality
    infeasibility := Scalar.min r.infeasibility p.infeasibility
    unboundedness := Scalar.min r.unboundedness p.unboundedness }

def done (r : Run) : Bool :=
  r.optimality < target || r.infeasibility < target || r.unboundedness < target

/-- Steps until the run is done, the point can not be advanced, or the steps are used up. -/
def iterate (P : ConeProblem) : Nat → Run → Run
  | 0, r => r
  | steps + 1, r =>
    match r.last.advance? P with
    | none => r
    | some v =>
      let r := r.note P v
      if r.done then r else iterate P steps r

/-- What a run has found at the given accuracies, of a solution and of a certificate. -/
def verdict (r : Run) (accuracy infeasibility : Float) : ConeOutcome :=
  match r.best.bind fun (v, error) => if error ≤ accuracy then some v else none with
  | some v => .solved (v.rescale (1 / v.τ))
  | none =>
    if r.unboundedness ≤ infeasibility then .unbounded
    else if r.infeasibility ≤ infeasibility then .infeasible
    else .undecided

end Run

/-- Steps after which the method has converged or never will. -/
def maxSteps : Nat := 100

/-- The accuracy at which a run is still believed which has come to a halt on its own. One that
doubles can not reach is asked for in vain. -/
def stalledAccuracy (requested : Float) : Float :=
  if 1e-14 < requested then Scalar.max requested 1e-4 else requested

def solveCone (P : ConeProblem) (steps : Nat) (accuracy infeasibility : Float) : ConeOutcome :=
  let run := Run.iterate P steps ⟨Iterate.start P, none, farAway, farAway, farAway⟩
  match run.verdict accuracy infeasibility with
  | .undecided =>
    if steps < maxSteps then .undecided
    else run.verdict (stalledAccuracy accuracy) (stalledAccuracy infeasibility)
  | outcome => outcome

end PerformanceEstimation.Numeric
