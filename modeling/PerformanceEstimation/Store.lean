import PerformanceEstimation.Error

/-!
# The constraint store

Constraints are appended and never removed, so a `ConstraintId` names the same constraint for ever.
An equality on unknowns whose linear part repeats or negates that of an earlier equality is refused,
as a duplicate if the constants agree and as contradictory if they do not.
-/

set_option autoImplicit false

namespace PerformanceEstimation

open Scalar

inductive ConstraintOrigin where
  | initialCondition
  | function (f : FunctionId)
  | interpolation (f : FunctionId) (k l : Nat)
  deriving DecidableEq, Repr

instance : ToString ConstraintOrigin where
  toString
    | .initialCondition => "initial condition"
    | .function f => s!"constraint on {f}"
    | .interpolation f k l => s!"interpolation of {f} at ({k}, {l})"

structure StoredConstraint (α : Type) where
  constraint : Constraint α
  origin : ConstraintOrigin

structure Store (α : Type) where
  entries : List (StoredConstraint α)

namespace Store

variable {α : Type}

instance : EmptyCollection (Store α) := ⟨⟨[]⟩⟩

def size (s : Store α) : Nat :=
  s.entries.length

def get? (s : Store α) (id : ConstraintId) : Option (StoredConstraint α) :=
  s.entries[id.pos]?

/-- Stored constraints with their identifiers. -/
def items (s : Store α) : List (ConstraintId × StoredConstraint α) :=
  s.entries.zipIdx.map fun (entry, i) => (⟨i⟩, entry)

variable [Scalar α]

/-- How two equalities are related, if the linear part of one repeats or negates the other's. -/
def conflictKind? (earlier new : Expression α) : Option ConflictKind :=
  let verdict (agree : Bool) := if agree then ConflictKind.duplicate else .contradictory
  if earlier.linearPart == new.linearPart then some (verdict (earlier.constant == new.constant))
  else if earlier.linearPart == -new.linearPart then
    some (verdict (earlier.constant == -new.constant))
  else none

/-- The first earlier equality with which a new constraint conflicts. Inequalities and constant
constraints conflict with nothing. -/
def conflict? (s : Store α) (c : Constraint α) : Option Conflict :=
  if c.isActive .equal then
    s.items.findSome? fun (id, entry) =>
      if entry.constraint.sense = .equal then
        (conflictKind? entry.constraint.lhs c.lhs).map (⟨·, id, ⟨s.size⟩⟩)
      else none
  else none

/-- Append a constraint, unless it conflicts with an earlier one. -/
def push (s : Store α) (c : Constraint α) (origin : ConstraintOrigin) :
    Except Conflict (ConstraintId × Store α) :=
  match s.conflict? c with
  | some conflict => .error conflict
  | none => .ok (⟨s.size⟩, ⟨s.entries ++ [⟨c, origin⟩]⟩)

/-- The first constant constraint which never holds. -/
def triviallyViolated? (s : Store α) : Option ConstraintId :=
  (s.items.find? fun (_, entry) => entry.constraint.isTriviallyViolated).map (·.1)

/-- Constraints of one sense which involve at least one unknown. -/
def active (s : Store α) (sense : Sense) : List (ConstraintId × StoredConstraint α) :=
  s.items.filter fun (_, entry) => entry.constraint.isActive sense

end Store

end PerformanceEstimation
