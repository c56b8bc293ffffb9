import PerformanceEstimation.Session.Declare

/-!
# Oracles

A leaf function is evaluated by a triple: the first one at the same point shares its value, and its
gradient too if the class is single-valued. Otherwise the gradient is a new basis vector. A weighted
sum is evaluated term by term; its terms come earlier in the session, so the evaluation ends.
-/

set_option autoImplicit false

namespace PerformanceEstimation.Action

open Scalar

variable {α : Type} [Scalar α]

/-- A new gradient of a leaf function at a point, with the given value. -/
def newTriple (f : FunctionId) (x : Point α) (value : Action α (Expression α)) :
    Action α (Point α × Expression α) := do
  let g ← newBasis (.gradient f)
  let v ← value
  pushTriple f ⟨x, g, v⟩
  return (g, v)

/-- Gradient and value of a function at a point. A sum knows only the functions declared before. -/
def evalOracle (x : Point α) (f : FunctionId) : Action α (Point α × Expression α) := do
  match ← lookup f with
  | .leaf cls triples =>
    match triples.find? (·.point == x) with
    | some t =>
      if cls.singleValued then return (t.gradient, t.value) else newTriple f x (pure t.value)
    | none => newTriple f x nextValue
  | .sum terms =>
    terms.foldlM (fun (g, v) (t, w) => do
      if _h : t.pos < f.pos then
        let (gt, vt) ← evalOracle x t
        return (g.axpy w gt, v.axpy w vt)
      else fail (.unknownFunction t f.pos)) (0, 0)
termination_by f.pos

/-- Value of a function at a point. A leaf that was evaluated there gets no new gradient. -/
def evalValue (x : Point α) (f : FunctionId) : Action α (Expression α) := do
  match ← lookup f with
  | .leaf _ triples =>
    match triples.find? (·.point == x) with
    | some t => return t.value
    | none => return (← evalOracle x f).2
  | .sum terms =>
    terms.foldlM (fun v (t, w) => do
      if _h : t.pos < f.pos then return v.axpy w (← evalValue x t)
      else fail (.unknownFunction t f.pos)) 0
termination_by f.pos

def leafStationaryPoint (f : FunctionId) : Action α (Point α) := do
  let x ← newBasis (.stationaryPoint f)
  pushTriple f ⟨x, 0, ← nextValue⟩
  return x

/-- A new point at which the gradients of the terms cancel. The gradient of the last term is fixed
by those of the others. -/
def sumStationaryPoint (f : FunctionId) (terms : List (FunctionId × α)) : Action α (Point α) := do
  terms.forM fun (t, _) => do
    match ← lookup t with
    | .leaf .. => return
    | .sum _ => fail (.invalidComposite f .termNotLeaf)
  match terms.getLast? with
  | none => fail (.invalidComposite f .noTerms)
  | some (last, weight) =>
    if isZero weight then fail (.invalidComposite f .lastWeightZero)
    let x ← newBasis (.stationaryPoint f)
    let rest ← terms.dropLast.foldlM
      (fun (g : Point α) (t, w) => return g.axpy w (← evalOracle x t).1) 0
    pushTriple last ⟨x, rest.scale (-1 / weight), ← nextValue⟩
    return x

def stationaryPoint (f : FunctionId) : Action α (Point α) := declaring do
  match ← lookup f with
  | .leaf .. => leafStationaryPoint f
  | .sum terms => sumStationaryPoint f terms

def oracle (f : FunctionId) (x : Point α) : Action α (Point α × Expression α) := declaring do
  checkPoint x
  evalOracle x f

/-- Gradient, subgradient or operator output at a point. -/
def gradient (f : FunctionId) (x : Point α) : Action α (Point α) :=
  return (← oracle f x).1

def value (f : FunctionId) (x : Point α) : Action α (Expression α) := declaring do
  checkPoint x
  evalValue x f

end PerformanceEstimation.Action
