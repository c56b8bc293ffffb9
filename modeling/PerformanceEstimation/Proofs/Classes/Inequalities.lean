import Mathlib
import PerformanceEstimation.Proofs.Algebra.Realizations
import PerformanceEstimation.Proofs.Classes.Conditions

/-!
# Inequalities of the built-in classes

In a realization a triple stands for a `Sample`: a vector, a gradient and a number. Every built-in
class has an inequality between two samples, `FunctionClass.excess s t ≤ 0`, and the constraint of a
pair of triples evaluates to its left side. An operator class generates the pairs `k < l` only,
which is enough since its inequality is symmetric (`excess_comm`). A class of functions of bounded
subgradients has a condition on single samples besides.

The generated constraints hold exactly when all samples satisfy the class, and no pair of positions
is tagged twice (`interpolation_exact`).
-/

set_option autoImplicit false

namespace PerformanceEstimation

/-- What is known of a function at a point. -/
structure Sample (E : Type*) where
  point : E
  gradient : E
  value : ℝ

variable {E : Type*} [NormedAddCommGroup E] [InnerProductSpace ℝ E]

attribute [local instance] atLeastTwo_two atLeastTwo_four

noncomputable def Realization.sample (r : Realization E) (t : Triple ℝ) : Sample E :=
  ⟨r.point t.point, r.point t.gradient, r.eval t.value⟩

namespace FunctionClass

def isBuiltIn {α : Type} : FunctionClass α → Bool
  | custom .. => false
  | _ => true

theorem checkPositive_eq_ok_iff {className parameter : String} {value : ℝ} :
    checkPositive className parameter value = .ok () ↔ 0 < value := by
  simp [checkPositive]

def Valid : FunctionClass ℝ → Prop
  | convex | monotone | custom .. => True
  | stronglyConvex a | convexLipschitz a | smooth a | smoothConvex a | stronglyMonotone a
  | lipschitz a | cocoercive a => 0 < a
  | smoothStronglyConvex mu l => 0 ≤ mu ∧ mu < l

theorem validate_eq_ok_iff {c : FunctionClass ℝ} : c.validate = .ok () ↔ c.Valid := by
  cases c with
  | convex | monotone | custom => exact iff_of_true rfl trivial
  | smoothStronglyConvex mu l =>
    rw [validate]
    cases hCheck : checkPositive (smoothStronglyConvex mu l).name "l" l with
    | error e =>
      have hl : ¬ 0 < l := by
        rw [← checkPositive_eq_ok_iff, hCheck]
        exact nofun
      exact iff_of_false nofun fun h => hl (h.1.trans_lt h.2)
    | ok =>
      by_cases hmu : 0 ≤ mu <;> by_cases hlt : mu < l <;>
        simp [Valid, hmu, hlt, bind, Except.bind, throw, throwThe, MonadExceptOf.throw, pure,
          Except.pure]
  | _ => exact checkPositive_eq_ok_iff

/-- Left side of the inequality of a class, which is to be at most zero for every ordered pair of
samples. Classes given by a rule have none. -/
noncomputable def excess (c : FunctionClass ℝ) (s t : Sample E) : ℝ :=
  let dx := s.point - t.point
  let dg := s.gradient - t.gradient
  match c with
  | convex | convexLipschitz _ => t.value - s.value + inner ℝ t.gradient dx
  | stronglyConvex mu => t.value - s.value + inner ℝ t.gradient dx + mu / 2 * ‖dx‖ ^ 2
  | smooth l => t.value - s.value + 1 / 2 * inner ℝ (s.gradient + t.gradient) dx
      + 1 / (4 * l) * ‖dg‖ ^ 2 - l / 4 * ‖dx‖ ^ 2
  | smoothConvex l => t.value - s.value + inner ℝ t.gradient dx + 1 / (2 * l) * ‖dg‖ ^ 2
  | smoothStronglyConvex mu l => t.value - s.value + inner ℝ t.gradient dx
      + 1 / (2 * (1 - mu / l)) *
        (‖dg‖ ^ 2 / l + mu * ‖dx‖ ^ 2 - 2 * mu / l * inner ℝ dg dx)
  | monotone => -inner ℝ dg dx
  | stronglyMonotone mu => mu * ‖dx‖ ^ 2 - inner ℝ dg dx
  | lipschitz l => ‖dg‖ ^ 2 - l ^ 2 * ‖dx‖ ^ 2
  | cocoercive beta => beta * ‖dg‖ ^ 2 - inner ℝ dg dx
  | custom .. => 0

theorem excess_self (c : FunctionClass ℝ) (s : Sample E) : c.excess s s = 0 := by
  cases c <;> simp [excess]

theorem excess_comm {c : FunctionClass ℝ} (hc : c.isOperator = true) (s t : Sample E) :
    c.excess s t = c.excess t s := by
  have hPoint : ‖s.point - t.point‖ = ‖t.point - s.point‖ := norm_sub_rev _ _
  have hGradient : ‖s.gradient - t.gradient‖ = ‖t.gradient - s.gradient‖ := norm_sub_rev _ _
  have hInner : inner ℝ (s.gradient - t.gradient) (s.point - t.point) =
      inner ℝ (t.gradient - s.gradient) (t.point - s.point) := by
    rw [← neg_sub t.gradient, ← neg_sub t.point, inner_neg_neg]
  cases c with
  | monotone | stronglyMonotone mu | lipschitz l | cocoercive beta =>
    simp only [excess, hPoint, hGradient, hInner]
  | _ => cases hc

theorem Relates.lt {c : FunctionClass ℝ} {k l : ℕ} (h : c.Relates k l)
    (hc : c.isOperator = true) : k < l := by
  simpa [Relates, hc] using h

theorem Relates.ne {c : FunctionClass ℝ} {k l : ℕ} (h : c.Relates k l) : k ≠ l := by
  unfold Relates at h
  split at h
  · exact h.ne
  · exact h

section Senses

variable {α : Type} [Scalar α] {c : FunctionClass α}

theorem sense_pairRule (tk tl : Triple α) (hc : c.isBuiltIn = true) :
    (c.pairRule tk tl).sense = .lessEq := by
  cases c with
  | custom => cases hc
  | _ => rfl

theorem sense_of_mem_interpolation (hc : c.isBuiltIn = true) {triples : List (Triple α)}
    {i : Interpolation α} (hi : i ∈ c.interpolation triples) :
    i.constraint.sense = .lessEq := by
  obtain ⟨-, ⟨-, tk, tl, -, -, hRule⟩ | ⟨-, m, t, -, -, hRule⟩⟩ := mem_interpolation_iff.mp hi
  · rw [hRule, sense_pairRule tk tl hc]
  · rw [hRule]
    rfl

end Senses

section Rules

variable (r : Realization E) (tk tl : Triple ℝ)

theorem eval_convexityGap : r.eval (convexityGap tk tl) =
    (r.sample tl).value - (r.sample tk).value +
      inner ℝ (r.sample tl).gradient ((r.sample tk).point - (r.sample tl).point) := by
  simp [convexityGap, Realization.sample]

theorem eval_pairRule {c : FunctionClass ℝ} (hc : c.isBuiltIn = true) :
    r.eval (c.pairRule tk tl).lhs = c.excess (r.sample tk) (r.sample tl) := by
  cases c with
  | custom => cases hc
  | convex | convexLipschitz m =>
    simp [pairRule, convexRule, Expression.le, eval_convexityGap, excess]
  | stronglyConvex mu =>
    simp [pairRule, stronglyConvexRule, Expression.le, eval_convexityGap, excess, Realization.sample]
  | smooth l =>
    simp [pairRule, smoothRule, Expression.le, excess, Realization.sample]
  | smoothConvex l =>
    simp [pairRule, smoothConvexRule, Expression.le, excess, Realization.sample]
  | smoothStronglyConvex mu l =>
    simp [pairRule, smoothStronglyConvexRule, Expression.le, excess, Realization.sample,
      div_eq_inv_mul]
  | monotone =>
    simp [pairRule, monotoneRule, Expression.ge, excess, Realization.sample]
  | stronglyMonotone mu =>
    simp [pairRule, stronglyMonotoneRule, Expression.le, excess, Realization.sample]
  | lipschitz l =>
    simp [pairRule, lipschitzRule, Expression.le, excess, Realization.sample, sq]
  | cocoercive beta =>
    simp [pairRule, cocoerciveRule, Expression.le, excess, Realization.sample]

theorem eval_subgradientRule (m : ℝ) (t : Triple ℝ) :
    r.eval (subgradientRule m t).lhs = ‖(r.sample t).gradient‖ ^ 2 - m ^ 2 := by
  simp [subgradientRule, Expression.le, Realization.sample, sq]

end Rules

structure Admits (c : FunctionClass ℝ) (samples : List (Sample E)) : Prop where
  pair : ∀ s ∈ samples, ∀ t ∈ samples, c.excess s t ≤ 0
  single : ∀ m, c = convexLipschitz m → ∀ s ∈ samples, ‖s.gradient‖ ^ 2 ≤ m ^ 2

section Exact

variable (r : Realization E) {c : FunctionClass ℝ} {triples : List (Triple ℝ)}

theorem pairRule_holdsAt_iff (hc : c.isBuiltIn = true) (tk tl : Triple ℝ) :
    (c.pairRule tk tl).HoldsAt r.gram r.value ↔ c.excess (r.sample tk) (r.sample tl) ≤ 0 := by
  rw [Constraint.holdsAt_lessEq _ _ (sense_pairRule tk tl hc), ← eval_pairRule r tk tl hc]
  rfl

theorem subgradientRule_holdsAt_iff (m : ℝ) (t : Triple ℝ) :
    (subgradientRule m t).HoldsAt r.gram r.value ↔ ‖(r.sample t).gradient‖ ^ 2 ≤ m ^ 2 := by
  rw [Constraint.holdsAt_lessEq _ _ rfl, ← sub_nonpos (b := m ^ 2), ← eval_subgradientRule]
  rfl

theorem holdsOn_iff_admits (hc : c.isBuiltIn = true) :
    c.HoldsOn r.gram r.value triples ↔ c.Admits (triples.map r.sample) := by
  constructor
  · intro h
    have hLess {k l : ℕ} {tk tl : Triple ℝ} (hk : triples[k]? = some tk)
        (hl : triples[l]? = some tl) (hRelates : c.Relates k l) :
        c.excess (r.sample tk) (r.sample tl) ≤ 0 :=
      (pairRule_holdsAt_iff r hc tk tl).mp (h.pair k l tk tl hk hl hRelates)
    constructor
    · simp only [List.forall_mem_map]
      intro tk hkMem tl hlMem
      obtain ⟨k, hk⟩ := List.mem_iff_getElem?.mp hkMem
      obtain ⟨l, hl⟩ := List.mem_iff_getElem?.mp hlMem
      -- not generated: a position with itself, and for operators descending pairs
      rcases lt_trichotomy k l with hkl | rfl | hkl
      · exact hLess hk hl (by simp [Relates, hkl, hkl.ne])
      · cases hk.symm.trans hl
        exact (c.excess_self _).le
      · cases hOperator : c.isOperator with
        | true =>
          rw [excess_comm hOperator]
          exact hLess hl hk (by simp [Relates, hkl, hkl.ne])
        | false => exact hLess hk hl (by simp [Relates, hOperator, hkl.ne'])
    · simp only [List.forall_mem_map]
      intro m hm t ht
      exact (subgradientRule_holdsAt_iff r m t).mp (h.single m hm t ht)
  · intro h
    constructor
    · intro k l tk tl hk hl _
      exact (pairRule_holdsAt_iff r hc tk tl).mpr (h.pair _
        (List.mem_map_of_mem (List.mem_of_getElem? hk)) _
        (List.mem_map_of_mem (List.mem_of_getElem? hl)))
    · intro m hm t ht
      exact (subgradientRule_holdsAt_iff r m t).mpr (h.single m hm _ (List.mem_map_of_mem ht))

theorem interpolation_hold_iff_admits (hc : c.isBuiltIn = true) :
    (∀ i ∈ c.interpolation triples, i.constraint.HoldsAt r.gram r.value) ↔
      c.Admits (triples.map r.sample) :=
  (c.interpolation_hold_iff r.gram r.value triples).trans (holdsOn_iff_admits r hc)

open Interpolation in
/-- The constraints of a built-in class are its inequality, for any parameters. They hold exactly
when every ordered pair of different positions satisfies it, and every single subgradient its bound
where the class has one. The value of the constraint of a pair is the left side of the inequality,
only the bound of a subgradient is tagged with a position twice, and no pair is tagged twice. -/
theorem interpolation_exact (hc : c.isBuiltIn = true) (triples : List (Triple ℝ)) :
    ((∀ i ∈ c.interpolation triples, i.constraint.HoldsAt r.gram r.value) ↔
      (∀ (k l : ℕ) (tk tl : Triple ℝ), triples[k]? = some tk → triples[l]? = some tl → k ≠ l →
        c.excess (r.sample tk) (r.sample tl) ≤ 0) ∧
      ∀ m, c = convexLipschitz m → ∀ t ∈ triples, ‖r.point t.gradient‖ ^ 2 ≤ m ^ 2) ∧
    (∀ i ∈ c.interpolation triples, i.constraint.sense = .lessEq ∧
      ((i.k ≠ i.l ∧ (c.isOperator = true → i.k < i.l) ∧
        ∃ tk tl, triples[i.k]? = some tk ∧ triples[i.l]? = some tl ∧
          r.eval i.constraint.lhs = c.excess (r.sample tk) (r.sample tl)) ∨
      (i.k = i.l ∧ ∃ m t, c = convexLipschitz m ∧ triples[i.k]? = some t ∧
        r.eval i.constraint.lhs = ‖r.point t.gradient‖ ^ 2 - m ^ 2))) ∧
    ((c.interpolation triples).map positions).Nodup := by
  refine ⟨?_, ?_, nodup_positions_interpolation c triples⟩
  · constructor
    · intro h
      have hAdmits := (interpolation_hold_iff_admits r hc).mp h
      refine ⟨fun k l tk tl hk hl _ => ?_, fun m hm t ht => ?_⟩
      · exact hAdmits.pair _ (List.mem_map_of_mem (List.mem_of_getElem? hk)) _
          (List.mem_map_of_mem (List.mem_of_getElem? hl))
      · exact hAdmits.single m hm _ (List.mem_map_of_mem ht)
    · rintro ⟨hPair, hSingle⟩
      refine (c.interpolation_hold_iff r.gram r.value triples).mpr ⟨?_, fun m hm t ht => ?_⟩
      · intro k l tk tl hk hl hRelates
        exact (pairRule_holdsAt_iff r hc tk tl).mpr (hPair k l tk tl hk hl hRelates.ne)
      · exact (subgradientRule_holdsAt_iff r m t).mpr (hSingle m hm t ht)
  · intro i hi
    obtain ⟨-, ⟨hRelates, tk, tl, hk, hl, hRule⟩ | ⟨hEq, m, t, hm, hk, hRule⟩⟩ :=
      mem_interpolation_iff.mp hi
    · rw [hRule]
      exact ⟨sense_pairRule tk tl hc, .inl ⟨hRelates.ne, hRelates.lt, tk, tl, hk, hl,
        eval_pairRule r tk tl hc⟩⟩
    · rw [hRule]
      exact ⟨rfl, .inr ⟨hEq, m, t, hm, hk, eval_subgradientRule r m t⟩⟩

end Exact

section Example

/-- The vectors minus one and one, with one number for all values. -/
noncomputable def oppositePoints (v : ℝ) : Realization ℝ where
  basis i := if i.pos = 0 then -1 else 1
  value _ := v

noncomputable def oppositeTriples : List (Triple ℝ) :=
  [⟨.ofBasis ⟨0⟩, .ofBasis ⟨0⟩, .ofValue ⟨0⟩⟩, ⟨.ofBasis ⟨1⟩, .ofBasis ⟨1⟩, .ofValue ⟨0⟩⟩]

theorem sample_oppositeTriples (v : ℝ) :
    oppositeTriples.map (oppositePoints v).sample = [⟨-1, -1, v⟩, ⟨1, 1, v⟩] := by
  simp [oppositeTriples, Realization.sample, oppositePoints]

/-- The absolute value at minus one and one. -/
theorem admits_oppositeTriples :
    (convexLipschitz 1).Admits (oppositeTriples.map (oppositePoints 1).sample) := by
  rw [sample_oppositeTriples]
  constructor
  · norm_num [excess]
  · rintro m hm s hs
    obtain rfl : 1 = m := convexLipschitz.inj hm
    simp only [List.mem_cons, List.not_mem_nil, or_false] at hs
    rcases hs with rfl | rfl <;> simp

theorem interpolation_exact_opposite : (convexLipschitz (1 : ℝ)).isBuiltIn = true ∧
    ∀ i ∈ (convexLipschitz 1).interpolation oppositeTriples,
      i.constraint.HoldsAt (oppositePoints 1).gram (oppositePoints 1).value := by
  refine ⟨rfl, (interpolation_exact (oppositePoints 1) rfl oppositeTriples).1.mpr ⟨?_, ?_⟩⟩
  · intro k l tk tl hk hl _
    exact admits_oppositeTriples.pair _ (List.mem_map_of_mem (List.mem_of_getElem? hk)) _
      (List.mem_map_of_mem (List.mem_of_getElem? hl))
  · intro m hm t ht
    exact admits_oppositeTriples.single m hm _ (List.mem_map_of_mem ht)

end Example

end FunctionClass

end PerformanceEstimation
