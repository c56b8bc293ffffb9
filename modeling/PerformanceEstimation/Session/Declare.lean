import PerformanceEstimation.Session.Basic

/-!
# Declaring a session

Functions, starting points, constraints and the metric. A sum refers only to functions declared
before it. The metric is set once.
-/

set_option autoImplicit false

namespace PerformanceEstimation.Action

variable {α : Type} [Scalar α]

def appendFunction (body : FunctionBody α) : Action α FunctionId := do
  let s ← get
  set { s with functions := s.functions ++ [body] }
  return ⟨s.functions.length⟩

def declareFunction (cls : FunctionClass α) : Action α FunctionId := declaring do
  match cls.validate with
  | .ok () => appendFunction (.leaf cls [])
  | .error e => throw (.classParameter e)

/-- Checks the terms of a sum one by one, the function of each before its weight. -/
def checkSum (terms : List (FunctionId × α)) : Action α Unit := do
  let f : FunctionId := ⟨(← get).functions.length⟩
  if terms.isEmpty then fail (.invalidComposite f .noTerms)
  terms.forM fun (t, w) => do
    let _ ← lookup t
    unless Scalar.isFinite w do fail (.invalidComposite f .weightNotFinite)

def declareSum (terms : List (FunctionId × α)) : Action α FunctionId := declaring do
  checkSum terms
  appendFunction (.sum terms)

def initialPoint : Action α (Point α) :=
  declaring (newBasis .initialPoint)

/-- A new function value, unrelated to any other. -/
def newValue : Action α (Expression α) :=
  declaring nextValue

/-- A new vector for a gradient of a function at a point yet to be fixed. -/
def newGradient (f : FunctionId) : Action α (Point α) := declaring do
  let _ ← lookup f
  newBasis (.gradient f)

def addPoint (f : FunctionId) (x g : Point α) (v : Expression α) : Action α Unit := declaring do
  let _ ← lookup f
  checkPoint x
  checkPoint g
  checkExpression v
  pushTriple f ⟨x, g, v⟩

def pushConstraint (c : Constraint α) (origin : ConstraintOrigin) : Action α Unit := do
  checkExpression c.lhs
  let s ← get
  match s.declared.push c origin with
  | .ok (_, declared) => set { s with declared }
  | .error conflict => throw (.conflict conflict)

def initialCondition (c : Constraint α) : Action α Unit :=
  declaring (pushConstraint c .initialCondition)

/-- Adds a constraint on a function, beyond those of its class. -/
def functionConstraint (f : FunctionId) (c : Constraint α) : Action α Unit := declaring do
  let _ ← lookup f
  pushConstraint c (.function f)

def setMetric (e : Expression α) : Action α Unit := declaring do
  if (← get).metric.isSome then fail .metricAlreadySet
  checkExpression e
  modify fun s => { s with metric := some e }

end PerformanceEstimation.Action
