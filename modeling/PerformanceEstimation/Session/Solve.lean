import PerformanceEstimation.Session.Oracle
import PerformanceEstimation.Solve

/-!
# Compiling and solving a session

The declared constraints keep their identifiers in the compiled store; the interpolation constraints
of the leaf functions follow, by function. A constraint which never holds makes the program
infeasible, which is no fault of the declaration.

The first failed solve is final: later ones return its error and change nothing.
-/

set_option autoImplicit false

namespace PerformanceEstimation

variable {α : Type} [Scalar α]

/-- Interpolation constraints of the leaf functions, with their origins. -/
def Session.interpolations (s : Session α) : List (StoredConstraint α) :=
  s.functions.zipIdx.flatMap fun
    | (.leaf cls triples, f) => (cls.interpolation triples).map fun i =>
      ⟨i.constraint, .interpolation ⟨f⟩ i.k i.l⟩
    | (.sum _, _) => []

/-- All constraints of a session, or the first conflict among them. -/
def Session.compiledStore (s : Session α) : Except Conflict (Store α) :=
  s.interpolations.foldlM (fun store c => (store.push c.constraint c.origin).map (·.2)) s.declared

namespace Action

def compileStore : Action α (Store α × Expression α) := do
  let s ← get
  match s.metric with
  | none => fail .missingMetric
  | some metric =>
    match s.compiledStore with
    | .ok store => return (store, metric)
    | .error conflict => throw (.conflict conflict)

def compile : Action α (Program α) := do
  live
  let (store, metric) ← poisoning compileStore
  match Program.assemble store metric (← get).basis.size with
  | .ok program => return program
  | .error e => throw (.solve e)

/-- Outcome for a compiled store. The terms of a session's program lie inside its matrices. -/
def solveStore (b : Backend α) (s : Session α) (store : Store α) (metric : Expression α) :
    Except (SolveError α) (Solution α) := do
  let program ← Program.assemble store metric s.basis.size
  (program.solve? b s.parameters).getD (.error (.solver .invalidOperator))

/-- Solves the session and keeps how that ended. -/
def solve (b : Backend α) : Action α (Solution α) := do
  live
  if let some e := (← get).failure then throw (.solve e)
  let (store, metric) ← poisoning compileStore
  modify fun s => { s with status := .solving }
  match solveStore b (← get) store metric with
  | .ok solution =>
    modify fun s => { s with status := .solved }
    return solution
  | .error e =>
    modify fun s => { s with status := .ofError e, failure := some e }
    throw (.solve e)

end Action

end PerformanceEstimation
