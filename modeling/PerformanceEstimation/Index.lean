import PerformanceEstimation.Terms

/-!
# Handles

Basis vectors, function values, functions and constraints are numbered in the order in which they
are introduced. Each kind of number has its own type, and is written with its own letter.
A `BasisPair` names an entry of the Gram matrix; `BasisPair.of` folds the two orders into one.
-/

set_option autoImplicit false

namespace PerformanceEstimation

/-- Position of a basis vector, also its row and column in the Gram matrix. -/
structure BasisIndex where
  pos : Nat
  deriving DecidableEq, Repr, Inhabited

structure ValueIndex where
  pos : Nat
  deriving DecidableEq, Repr, Inhabited

structure FunctionId where
  pos : Nat
  deriving DecidableEq, Repr, Inhabited

structure ConstraintId where
  pos : Nat
  deriving DecidableEq, Repr, Inhabited

instance : ToString BasisIndex := ⟨fun i => s!"b{i.pos}"⟩

instance : ToString ValueIndex := ⟨fun k => s!"v{k.pos}"⟩

instance : ToString FunctionId := ⟨fun f => s!"f{f.pos}"⟩

instance : ToString ConstraintId := ⟨fun c => s!"c{c.pos}"⟩

instance : LE BasisIndex := ⟨fun i j => i.pos ≤ j.pos⟩

instance : DecidableLE BasisIndex := fun i j => inferInstanceAs (Decidable (i.pos ≤ j.pos))

instance : Key BasisIndex where
  lt i j := i.pos < j.pos
  decideLt i j := inferInstanceAs (Decidable (i.pos < j.pos))
  decideEq := inferInstance
  lt_irrefl i := Nat.lt_irrefl i.pos
  lt_trans _ _ _ := Nat.lt_trans
  lt_of_not_lt_of_ne := fun ⟨_⟩ ⟨_⟩ h hne =>
    Nat.lt_of_le_of_ne (Nat.le_of_not_lt h) fun h => hne (congrArg _ h.symm)

instance : Key ValueIndex where
  lt i j := i.pos < j.pos
  decideLt i j := inferInstanceAs (Decidable (i.pos < j.pos))
  decideEq := inferInstance
  lt_irrefl i := Nat.lt_irrefl i.pos
  lt_trans _ _ _ := Nat.lt_trans
  lt_of_not_lt_of_ne := fun ⟨_⟩ ⟨_⟩ h hne =>
    Nat.lt_of_le_of_ne (Nat.le_of_not_lt h) fun h => hne (congrArg _ h.symm)

theorem BasisIndex.le_iff {i j : BasisIndex} : i ≤ j ↔ i.pos ≤ j.pos := Iff.rfl

theorem BasisIndex.lt_iff {i j : BasisIndex} : i < j ↔ i.pos < j.pos := Iff.rfl

theorem ValueIndex.lt_iff {i j : ValueIndex} : i < j ↔ i.pos < j.pos := Iff.rfl

structure BasisPair where
  row : BasisIndex
  col : BasisIndex
  deriving DecidableEq, Repr, Inhabited

namespace BasisPair

instance : Key BasisPair where
  lt p q := p.row < q.row ∨ (p.row = q.row ∧ p.col < q.col)
  decideLt p q := inferInstanceAs (Decidable (p.row < q.row ∨ (p.row = q.row ∧ p.col < q.col)))
  decideEq := inferInstance
  lt_irrefl p h := by
    simp only [BasisIndex.lt_iff] at h
    grind
  lt_trans p q r := by
    intro hpq hqr
    simp only [BasisIndex.lt_iff] at *
    grind
  lt_of_not_lt_of_ne := by
    rintro ⟨⟨i⟩, ⟨j⟩⟩ ⟨⟨k⟩, ⟨l⟩⟩ h hne
    simp only [BasisIndex.lt_iff] at *
    grind

theorem lt_iff {p q : BasisPair} :
    p < q ↔ p.row < q.row ∨ (p.row = q.row ∧ p.col < q.col) := Iff.rfl

/-- The entry of the upper triangle that the inner product of two basis vectors reads. -/
def of (i j : BasisIndex) : BasisPair :=
  if i ≤ j then ⟨i, j⟩ else ⟨j, i⟩

theorem row_le_col_of (i j : BasisIndex) : (of i j).row ≤ (of i j).col := by
  unfold of
  split
  · assumption
  · rename_i h
    exact Nat.le_of_lt (Nat.lt_of_not_le h)

theorem of_comm (i j : BasisIndex) : of i j = of j i := by
  obtain ⟨i⟩ := i
  obtain ⟨j⟩ := j
  simp only [of, BasisIndex.le_iff]
  grind

/-- The entries of one basis vector with others come in the order of the others. -/
theorem of_lt_of (i : BasisIndex) {j k : BasisIndex} (h : j < k) : of i j < of i k := by
  obtain ⟨i⟩ := i
  obtain ⟨j⟩ := j
  obtain ⟨k⟩ := k
  simp only [of, BasisIndex.le_iff, BasisIndex.lt_iff, lt_iff] at *
  grind

def isDiagonal (p : BasisPair) : Bool :=
  p.row == p.col

end BasisPair

end PerformanceEstimation
