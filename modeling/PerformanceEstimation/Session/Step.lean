import PerformanceEstimation.Session.Oracle

/-!
# Steps of first-order methods

An explicit gradient step, and a proximal step whose output is known only through the gradient
there. Both return the new point with the gradient and the value that belong to it.
-/

set_option autoImplicit false

namespace PerformanceEstimation.Action

variable {α : Type} [Scalar α]

/-- A new point with the gradient and the value which the step used. -/
structure StepResult (α : Type) where
  point : Point α
  gradient : Point α
  value : Expression α

/-- The step `x₁ = x₀ - γ g` along a gradient at `x₀`. -/
def gradientStep (f : FunctionId) (x₀ : Point α) (γ : α) : Action α (StepResult α) := do
  let (g, v) ← oracle f x₀
  return ⟨x₀ - γ * g, g, v⟩

/-- The step `x = x₀ - γ g` along a gradient at `x` itself. -/
def proximalStep (f : FunctionId) (x₀ : Point α) (γ : α) : Action α (StepResult α) := do
  let g ← newGradient f
  let v ← newValue
  let x := x₀ - γ * g
  addPoint f x g v
  return ⟨x, g, v⟩

end PerformanceEstimation.Action
