import PerformanceEstimation.Constraint

/-!
# Evaluated triples

A function or an operator is known only through the triples of a point, a gradient and a value at
which it was evaluated. A pairwise rule turns two triples into a constraint, and is applied to
every ordered pair, to every unordered pair, or to every single triple. Constraints which hold
trivially are dropped.
-/

set_option autoImplicit false

namespace PerformanceEstimation

/-- A point, a gradient (or subgradient, or operator output) there, and the value there. -/
structure Triple (α : Type) where
  point : Point α
  gradient : Point α
  value : Expression α

structure Interpolation (α : Type) where
  k : Nat
  l : Nat
  constraint : Constraint α

namespace Interpolation

variable {α : Type} [Scalar α]

/-- The constraint of a pair, unless it holds trivially. -/
def nontrivial? (k l : Nat) (c : Constraint α) : Option (Interpolation α) :=
  if c.isTriviallySatisfied then none else some ⟨k, l, c⟩

/-- The rule at every ordered pair of different positions, by the first and then the second. -/
def orderedPairs (rule : Triple α → Triple α → Constraint α) (triples : List (Triple α)) :
    List (Interpolation α) :=
  triples.zipIdx.flatMap fun (tk, k) => triples.zipIdx.filterMap fun (tl, l) =>
    if k = l then none else nontrivial? k l (rule tk tl)

/-- The rule at every pair whose first position is the smaller one. -/
def unorderedPairs (rule : Triple α → Triple α → Constraint α) (triples : List (Triple α)) :
    List (Interpolation α) :=
  triples.zipIdx.flatMap fun (tk, k) => triples.zipIdx.filterMap fun (tl, l) =>
    if k < l then nontrivial? k l (rule tk tl) else none

/-- A condition on every single triple, tagged with its position twice. -/
def eachTriple (rule : Triple α → Constraint α) (triples : List (Triple α)) :
    List (Interpolation α) :=
  triples.zipIdx.filterMap fun (t, k) => nontrivial? k k (rule t)

end Interpolation

end PerformanceEstimation
