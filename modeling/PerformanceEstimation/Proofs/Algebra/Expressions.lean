import Mathlib
import PerformanceEstimation.Constraint
import PerformanceEstimation.Proofs.Algebra.Combinations

/-!
# Expressions over the real numbers

An expression is **canonical** when both of its combinations are and every Gram entry is named in
the upper triangle. That is the form that the operations build; `Canonical.axpy` is the step that
all of them share. Evaluation is linear in the expression without any such condition.
-/

set_option autoImplicit false

namespace PerformanceEstimation

namespace Expression

section Form

variable {α : Type} [Scalar α]

omit [Scalar α] in
theorem ext_of_parts {e x : Expression α} (hValues : e.values = x.values)
    (hGram : e.gram = x.gram) (hConstant : e.constant = x.constant) : e = x := by
  cases e
  cases x
  cases hValues
  cases hGram
  cases hConstant
  rfl

structure Canonical (e : Expression α) : Prop where
  values : e.values.Canonical
  gram : e.gram.Canonical
  upper : ∀ term ∈ e.gram, term.1.row ≤ term.1.col

def GramBelow (n : ℕ) (e : Expression α) : Prop :=
  ∀ term ∈ e.gram, term.1.row.pos < n ∧ term.1.col.pos < n

theorem Canonical.axpy {e x : Expression α} (he : e.Canonical) (c : α) (hx : x.Canonical) :
    (e.axpy c x).Canonical where
  values := he.values.axpy c hx.values
  gram := he.gram.axpy c hx.gram
  upper := by
    intro term hTerm
    rcases Terms.key_mem_of_mem_axpy hx.gram hTerm with ⟨old, hOld, hKey⟩ | ⟨new, hNew, hKey⟩
    · exact hKey ▸ he.upper old hOld
    · exact hKey ▸ hx.upper new hNew

theorem Canonical.subConst {e : Expression α} (he : e.Canonical) (c : α) :
    (e.subConst c).Canonical :=
  ⟨he.values, he.gram, he.upper⟩

theorem GramBelow.axpy {n : ℕ} {e x : Expression α} (he : e.GramBelow n) (c : α)
    (hCanonical : x.Canonical) (hx : x.GramBelow n) : (e.axpy c x).GramBelow n := by
  intro term hTerm
  rcases Terms.key_mem_of_mem_axpy hCanonical.gram hTerm with ⟨old, hOld, hKey⟩ | ⟨new, hNew, hKey⟩
  · exact hKey ▸ he old hOld
  · exact hKey ▸ hx new hNew

end Form

section Value

variable (gram : BasisPair → ℝ) (value : ValueIndex → ℝ)

theorem evalAt_eq_total (e : Expression ℝ) :
    e.evalAt gram value = e.constant + e.gram.total gram + e.values.total value := by
  unfold evalAt
  rw [Terms.foldl_eq_total, Terms.foldl_eq_total]

theorem evalAt_axpy (e : Expression ℝ) (c : ℝ) (x : Expression ℝ) :
    (e.axpy c x).evalAt gram value = e.evalAt gram value + c * x.evalAt gram value := by
  simp only [evalAt_eq_total, axpy, Terms.total_axpy]
  ring

theorem evalAt_subConst (e : Expression ℝ) (c : ℝ) :
    (e.subConst c).evalAt gram value = e.evalAt gram value - c := by
  simp only [evalAt_eq_total, subConst, one_real]
  ring

theorem constant_subConst (e : Expression ℝ) (c : ℝ) :
    (e.subConst c).constant = e.constant - c := by
  rw [subConst, one_real]
  ring

@[simp] theorem constant_zero : (0 : Expression ℝ).constant = 0 :=
  zero_real

@[simp] theorem constant_add (e x : Expression ℝ) :
    (e + x).constant = e.constant + x.constant := by
  change e.constant + _ * x.constant = _
  rw [one_real, one_mul]

@[simp] theorem constant_sub (e x : Expression ℝ) :
    (e - x).constant = e.constant - x.constant := by
  change e.constant + _ * x.constant = _
  rw [one_real, neg_one_mul, sub_eq_add_neg]

@[simp] theorem constant_inner (p q : Point ℝ) : (p.inner q).constant = 0 :=
  zero_real

theorem evalAt_of_isConstant {e : Expression ℝ} (h : e.isConstant = true) :
    e.evalAt gram value = e.constant := by
  rw [isConstant, Bool.and_eq_true, List.isEmpty_iff, List.isEmpty_iff] at h
  rw [evalAt_eq_total, h.1, h.2, Terms.total_nil, Terms.total_nil, add_zero, add_zero]

end Value

theorem axpy_zero (e : Expression ℝ) (c : ℝ) : e.axpy c 0 = e := by
  refine ext_of_parts rfl rfl ?_
  rw [axpy, constant_zero, mul_zero, add_zero]

@[simp] protected theorem add_zero (e : Expression ℝ) : e + 0 = e :=
  e.axpy_zero _

@[simp] protected theorem sub_zero (e : Expression ℝ) : e - 0 = e :=
  e.axpy_zero _

theorem gramCoefficient_axpy {e x : Expression ℝ} (he : e.Canonical) (hx : x.Canonical) (c : ℝ)
    (i j : BasisIndex) :
    (e.axpy c x).gramCoefficient i j = e.gramCoefficient i j + c * x.gramCoefficient i j :=
  Terms.coefficient_axpy he.gram hx.gram c _

theorem valueCoefficient_axpy {e x : Expression ℝ} (he : e.Canonical) (hx : x.Canonical) (c : ℝ)
    (k : ValueIndex) :
    (e.axpy c x).valueCoefficient k = e.valueCoefficient k + c * x.valueCoefficient k :=
  Terms.coefficient_axpy he.values hx.values c k

end Expression

namespace Constraint

variable (gram : BasisPair → ℝ) (value : ValueIndex → ℝ)

theorem holdsAt_lessEq {c : Constraint ℝ} (h : c.sense = .lessEq) :
    c.HoldsAt gram value ↔ c.lhs.evalAt gram value ≤ 0 := by
  simp [HoldsAt, h]

theorem holdsAt_equal {c : Constraint ℝ} (h : c.sense = .equal) :
    c.HoldsAt gram value ↔ c.lhs.evalAt gram value = 0 := by
  simp [HoldsAt, h]

theorem holdsAt_iff_violation (c : Constraint ℝ) :
    c.HoldsAt gram value ↔ c.violation (c.lhs.evalAt gram value) = 0 := by
  cases hSense : c.sense with
  | lessEq => simp [holdsAt_lessEq gram value hSense, violation, hSense]
  | equal => simp [holdsAt_equal gram value hSense, violation, hSense]

theorem violation_nonneg (c : Constraint ℝ) (a : ℝ) : 0 ≤ c.violation a := by
  unfold violation
  split
  · simp
  · simp

/-- A constraint on a constant is decided: it holds everywhere, or it holds nowhere. -/
theorem holdsAt_of_isConstant {c : Constraint ℝ} (hConstant : c.lhs.isConstant = true) :
    c.HoldsAt gram value ↔ c.isTriviallyViolated = false := by
  rw [holdsAt_iff_violation, Expression.evalAt_of_isConstant gram value hConstant,
    isTriviallyViolated, hConstant, Bool.true_and, decide_eq_false_iff_not, zero_real, not_lt]
  exact ⟨fun h => h.le, fun h => le_antisymm h (violation_nonneg c _)⟩

theorem holdsAt_of_isTriviallySatisfied {c : Constraint ℝ} (h : c.isTriviallySatisfied = true) :
    c.HoldsAt gram value := by
  rw [isTriviallySatisfied, Bool.and_eq_true] at h
  rw [holdsAt_iff_violation, Expression.evalAt_of_isConstant gram value h.1]
  simpa using h.2

theorem not_holdsAt_of_isTriviallyViolated {c : Constraint ℝ} (h : c.isTriviallyViolated = true) :
    ¬ c.HoldsAt gram value := by
  intro hHolds
  rw [isTriviallyViolated, Bool.and_eq_true] at h
  rw [holdsAt_iff_violation, Expression.evalAt_of_isConstant gram value h.1] at hHolds
  simp [hHolds] at h

end Constraint

end PerformanceEstimation
