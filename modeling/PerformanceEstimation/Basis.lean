import PerformanceEstimation.Index

/-!
# The basis registry

Every direction that a method introduces is a new basis vector: a starting point, a stationary
point, or an output of an oracle. The registry keeps where each comes from. It only grows, up to a
capacity.
-/

set_option autoImplicit false

namespace PerformanceEstimation

/-- Where a basis vector comes from. -/
inductive BasisOrigin where
  | initialPoint
  | stationaryPoint (f : FunctionId)
  | gradient (f : FunctionId)
  deriving DecidableEq, Repr

instance : ToString BasisOrigin where
  toString
    | .initialPoint => "initial point"
    | .stationaryPoint f => s!"stationary point of {f}"
    | .gradient f => s!"gradient of {f}"

/-- Basis vectors in the order of their registration. -/
structure Basis where
  capacity : Nat
  origins : List BasisOrigin

namespace Basis

def empty (capacity : Nat) : Basis :=
  ⟨capacity, []⟩

def size (b : Basis) : Nat :=
  b.origins.length

def contains (b : Basis) (i : BasisIndex) : Bool :=
  i.pos < b.size

def origin? (b : Basis) (i : BasisIndex) : Option BasisOrigin :=
  b.origins[i.pos]?

/-- Append a basis vector, if there is room. -/
def register? (b : Basis) (origin : BasisOrigin) : Option (BasisIndex × Basis) :=
  if b.size < b.capacity then some (⟨b.size⟩, { b with origins := b.origins ++ [origin] }) else none

def items (b : Basis) : List (BasisIndex × BasisOrigin) :=
  b.origins.zipIdx.map fun (origin, i) => (⟨i⟩, origin)

end Basis

end PerformanceEstimation
