import PerformanceEstimation.Basis
import PerformanceEstimation.Parameters
import PerformanceEstimation.Store

/-!
# Sessions

A `Session` owns the basis vectors, the function values, the declared functions with their triples,
the declared constraints and the metric. An `Action` is a call on a session: it returns a result or
an error, and in both cases the session that it leaves behind.

A declaring call fails at once on a poisoned session. Otherwise an error poisons the session, and a
success makes an earlier solution out of date. `Action.declaring` is that discipline.
-/

set_option autoImplicit false

namespace PerformanceEstimation

/-- A declared function: a member of a class with its triples, or a weighted sum of functions. -/
inductive FunctionBody (α : Type) where
  | leaf (cls : FunctionClass α) (triples : List (Triple α))
  | sum (terms : List (FunctionId × α))

inductive Status where
  | unsolved
  | solving
  | solved
  | infeasible
  | unbounded
  | solverError
  deriving DecidableEq, Repr

instance : ToString Status where
  toString
    | .unsolved => "unsolved"
    | .solving => "solving"
    | .solved => "solved"
    | .infeasible => "infeasible"
    | .unbounded => "unbounded"
    | .solverError => "solver error"

def Status.ofError {α : Type} : SolveError α → Status
  | .infeasible => infeasible
  | .unbounded => unbounded
  | .solver _ | .tolerance _ => solverError

/-- Everything that was declared, and the outcome of the last solve. -/
structure Session (α : Type) where
  parameters : Parameters α
  basis : Basis
  valueCount : Nat
  functions : List (FunctionBody α)
  declared : Store α
  metric : Option (Expression α)
  status : Status
  failure : Option (SolveError α)
  poisoned : Bool

namespace Session

variable {α : Type}

def new (par : Parameters α) : Session α where
  parameters := par
  basis := Basis.empty par.maxBasis
  valueCount := 0
  functions := []
  declared := ∅
  metric := none
  status := .unsolved
  failure := none
  poisoned := false

/-- Changes the parameters. A new capacity counts only while there is no basis vector. -/
def configure (s : Session α) (change : Parameters α → Parameters α) : Session α :=
  let par := change s.parameters
  let basis := if s.basis.size = 0 then Basis.empty par.maxBasis else s.basis
  { s with parameters := par, basis }

def triples? (s : Session α) (f : FunctionId) : Option (List (Triple α)) :=
  match s.functions[f.pos]? with
  | some (.leaf _ triples) => some triples
  | _ => none

/-- A solution does not outlive a change of the session. -/
def touch (s : Session α) : Session α :=
  { s with status := if s.status = .solved then .unsolved else s.status }

end Session

abbrev Action (α β : Type) := EStateM (SessionError α) (Session α) β

namespace Action

variable {α β : Type}

def live : Action α Unit := do
  if (← get).poisoned then throw (.construction .poisoned)

/-- Poisons the session if the call fails. -/
def poisoning (act : Action α β) : Action α β := fun s =>
  match act s with
  | .ok b s => .ok b s
  | .error e s => .error e { s with poisoned := true }

/-- A call which declares something. -/
def declaring (act : Action α β) : Action α β := do
  live
  let b ← poisoning act
  modify Session.touch
  return b

def fail (e : ConstructionError) : Action α β :=
  throw (.construction e)

def lookup (f : FunctionId) : Action α (FunctionBody α) := do
  let functions := (← get).functions
  match functions[f.pos]? with
  | some body => return body
  | none => fail (.unknownFunction f functions.length)

/-- Refuses a point with a basis vector that is not registered. -/
def checkPoint (x : Point α) : Action α Unit := do
  let basis := (← get).basis
  match x.terms.find? fun (i, _) => !basis.contains i with
  | some (i, _) => fail (.unknownBasis i basis.size)
  | none => return

/-- Refuses an expression with a basis vector or a function value that is not registered. -/
def checkExpression (e : Expression α) : Action α Unit := do
  let s ← get
  match (e.gram.flatMap fun (p, _) => [p.row, p.col]).find? (!s.basis.contains ·) with
  | some i => fail (.unknownBasis i s.basis.size)
  | none =>
    match e.values.find? fun (k, _) => s.valueCount ≤ k.pos with
    | some (k, _) => fail (.unknownValue k s.valueCount)
    | none => return

variable [Scalar α]

def newBasis (origin : BasisOrigin) : Action α (Point α) := do
  let s ← get
  match s.basis.register? origin with
  | some (i, basis) =>
    set { s with basis }
    return .ofBasis i
  | none => fail (.basisCapacity s.basis.capacity)

def nextValue : Action α (Expression α) := do
  let s ← get
  set { s with valueCount := s.valueCount + 1 }
  return .ofValue ⟨s.valueCount⟩

def pushTriple (f : FunctionId) (t : Triple α) : Action α Unit := do
  match ← lookup f with
  | .leaf cls triples => modify fun s =>
      { s with functions := s.functions.set f.pos (.leaf cls (triples ++ [t])) }
  | .sum _ => fail (.invalidComposite f .triplesOnSum)

end Action

end PerformanceEstimation
