import Mathlib
import PerformanceEstimation.Proofs.Algebra.Rounding
import PerformanceEstimation.Proofs.Classes.Degeneration

/-!
# The exchange of two triples

The rules of operator classes are made of inner products of the two differences of points and
outputs. Each product is the same after an exchange of the triples, whatever is rounded, and so is
the constraint (`FunctionClass.alike_pairRule`). Hence the pairs whose first position is the smaller
one give every constraint of the ordered pairs, and give it once (`symmetric_under_rounding`).
-/

set_option autoImplicit false

namespace PerformanceEstimation

open Scalar

variable {α : Type} [Scalar α]

namespace Constraint

/-- The same constraint up to coefficients which are alike. -/
structure Alike (c d : Constraint α) : Prop where
  lhs : c.lhs.Alike d.lhs
  sense : c.sense = d.sense

variable {c d : Constraint α}

theorem Alike.isTriviallySatisfied_eq (h : c.Alike d) :
    c.isTriviallySatisfied = d.isTriviallySatisfied := by
  rw [isTriviallySatisfied, isTriviallySatisfied, violation, violation, h.lhs.isConstant_eq,
    h.lhs.constant, h.sense]

theorem Alike.beq (h : c.Alike d) (hNumbers : (c == c) = true) : (c == d) = true := by
  obtain ⟨hLhs, -⟩ := Bool.and_eq_true_iff.mp hNumbers
  exact Bool.and_eq_true_iff.mpr ⟨h.lhs.beq hLhs, by simp [h.sense]⟩

end Constraint

/-- The first list is contained in the second one and has each of its pairs of positions once,
whatever their order, with a constraint that is equal unless a coefficient is no number. -/
structure Interpolation.Covers (half full : List (Interpolation α)) : Prop where
  subset : ∀ j ∈ half, j ∈ full
  nodup : (half.map fun j => s(j.k, j.l)).Nodup
  every : ∀ i ∈ full, ∃ j ∈ half, s(j.k, j.l) = s(i.k, i.l) ∧
    ((i.constraint == i.constraint) = true → (i.constraint == j.constraint) = true)

namespace FunctionClass

open Interpolation

section Operators

variable {c : FunctionClass α} {triples : List (Triple α)}

theorem interpolation_of_isOperator (hOperator : c.isOperator = true) :
    c.interpolation triples = unorderedPairs c.pairRule triples := by
  cases c with
  | monotone | stronglyMonotone mu | lipschitz l | cocoercive beta => rfl
  | _ => cases hOperator

variable [SignExact α] {tk tl : Triple α}

/-- Both differences change their signs, which no product of them shows. -/
theorem alike_pairRule (hOperator : c.isOperator = true) (hk : tk.Canonical) (hl : tl.Canonical) :
    (c.pairRule tk tl).Alike (c.pairRule tl tk) := by
  have hPoint := Point.sub_opposite hk.point hl.point
  have hOutput := Point.sub_opposite hk.gradient hl.gradient
  cases c with
  | monotone =>
    exact ⟨(Expression.Alike.refl (Expression.canonical_const 0)).sub (hOutput.inner hPoint), rfl⟩
  | stronglyMonotone mu =>
    exact ⟨((hPoint.inner hPoint).mul mu).sub (hOutput.inner hPoint), rfl⟩
  | lipschitz l =>
    exact ⟨(hOutput.inner hOutput).sub ((hPoint.inner hPoint).mul (l * l)), rfl⟩
  | cocoercive beta =>
    exact ⟨((hOutput.inner hOutput).mul beta).sub (hOutput.inner hPoint), rfl⟩
  | _ => cases hOperator

theorem covers_orderedPairs (hOperator : c.isOperator = true)
    (hCanonical : ∀ t ∈ triples, t.Canonical) :
    Covers (c.interpolation triples) (orderedPairs c.pairRule triples) := by
  rw [interpolation_of_isOperator hOperator]
  refine ⟨fun j hj => ?_, ?_, fun i hi => ?_⟩
  · obtain ⟨hTrivial, hLess, hRule⟩ := mem_unorderedPairs_iff.mp hj
    exact mem_orderedPairs_iff.mpr ⟨hTrivial, hLess.ne, hRule⟩
  · have hPositions : ((unorderedPairs c.pairRule triples).map positions).Nodup :=
      nodup_positions_unorderedPairs c.pairRule
    rw [List.Nodup, List.pairwise_map] at hPositions ⊢
    refine hPositions.imp_of_mem fun {i j} hi hj hNe hSame => ?_
    obtain ⟨-, hi, -⟩ := mem_unorderedPairs_iff.mp hi
    obtain ⟨-, hj, -⟩ := mem_unorderedPairs_iff.mp hj
    rcases Sym2.eq_iff.mp hSame with ⟨hk, hl⟩ | ⟨hk, hl⟩
    · exact hNe (Prod.ext hk hl)
    · omega
  · obtain ⟨hTrivial, hDistinct, tk, tl, hk, hl, hRule⟩ := mem_orderedPairs_iff.mp hi
    rcases Nat.lt_or_gt_of_ne hDistinct with hLess | hGreater
    · exact ⟨i, mem_unorderedPairs_iff.mpr ⟨hTrivial, hLess, tk, tl, hk, hl, hRule⟩, rfl, id⟩
    · have hAlike := alike_pairRule hOperator (hCanonical tk (List.mem_of_getElem? hk))
        (hCanonical tl (List.mem_of_getElem? hl))
      rw [hRule] at hTrivial ⊢
      refine ⟨⟨i.l, i.k, c.pairRule tl tk⟩, mem_unorderedPairs_iff.mpr
        ⟨?_, hGreater, tl, tk, hl, hk, rfl⟩, Sym2.eq_swap, hAlike.beq⟩
      rw [← hTrivial]
      exact hAlike.isTriviallySatisfied_eq.symm

end Operators

end FunctionClass

open Interpolation in
/-- What no rounding breaks. An expression equals itself unless a coefficient is no number. -/
theorem symmetric_under_rounding [SignExact α] :
    (∀ p q : Point α, p.Canonical → q.Canonical →
      ((p.inner q == p.inner q) = true → (p.inner q == q.inner p) = true) ∧
      ((q - p == q - p) = true → (q - p == -(p - q)) = true)) ∧
    ∀ c : FunctionClass α, c.isOperator = true →
      (∀ tk tl : Triple α, tk.Canonical → tl.Canonical →
        (c.pairRule tk tl == c.pairRule tk tl) = true →
          (c.pairRule tk tl == c.pairRule tl tk) = true) ∧
      ∀ triples : List (Triple α), (∀ t ∈ triples, t.Canonical) →
        Covers (c.interpolation triples) (orderedPairs c.pairRule triples) := by
  refine ⟨fun p q hp hq => ⟨(Point.inner_comm hp hq).beq, Point.sub_beq_neg_sub hp hq⟩, ?_⟩
  intro c hOperator
  refine ⟨fun tk tl hk hl => (c.alike_pairRule hOperator hk hl).beq, fun triples hCanonical => ?_⟩
  exact c.covers_orderedPairs hOperator hCanonical

/-- Numbers that saturate at seven. Adding them is not associative. -/
def saturating : Rounding where
  round x := max (-7) (min 7 x)
  round_round x := by grind
  round_neg x := by grind
  round_one := by norm_num

namespace Saturating

def point (a b : ℚ) : Point saturating.Number :=
  ⟨[(⟨0⟩, saturating.nearest a), (⟨1⟩, saturating.nearest b)]⟩

/-- The products of this point with that of `second` are beyond the bound, and cancel in the mixed
entry. -/
def first : Triple saturating.Number :=
  ⟨point 5 6, point 1 (-2), 0⟩

def second : Triple saturating.Number :=
  ⟨point 4 (-3), point 2 3, 0⟩

def operatorClass : FunctionClass saturating.Number :=
  .cocoercive (saturating.nearest 2)

theorem canonical_point {a b : ℚ} (ha : isZero (saturating.nearest a) = false)
    (hb : isZero (saturating.nearest b) = false) : (point a b).Canonical :=
  Terms.canonical_cons_iff.mpr ⟨by simp [BasisIndex.lt_iff], ha, Terms.canonical_singleton _ hb⟩

theorem canonical_first : first.Canonical :=
  ⟨canonical_point (by decide +kernel) (by decide +kernel),
    canonical_point (by decide +kernel) (by decide +kernel), Expression.canonical_const 0⟩

theorem canonical_second : second.Canonical :=
  ⟨canonical_point (by decide +kernel) (by decide +kernel),
    canonical_point (by decide +kernel) (by decide +kernel), Expression.canonical_const 0⟩

end Saturating

open Saturating Interpolation in
theorem symmetric_under_rounding_saturating :
    (first.point.inner second.point).gram.map (fun term => (term.1, term.2.exact)) =
        [(⟨⟨0⟩, ⟨0⟩⟩, 7), (⟨⟨1⟩, ⟨1⟩⟩, -7)] ∧
      (first.point.inner second.point == second.point.inner first.point) = true ∧
      (second.point - first.point == -(first.point - second.point)) = true ∧
      operatorClass.isOperator = true ∧
      (operatorClass.pairRule first second == operatorClass.pairRule second first) = true ∧
      (operatorClass.interpolation [first, second]).length = 1 ∧
      Covers (operatorClass.interpolation [first, second])
        (orderedPairs operatorClass.pairRule [first, second]) := by
  obtain ⟨hPoints, hOperators⟩ := symmetric_under_rounding (α := saturating.Number)
  obtain ⟨hInner, hSub⟩ := hPoints _ _ canonical_first.point canonical_second.point
  obtain ⟨hRule, hPairs⟩ := hOperators operatorClass rfl
  refine ⟨by decide +kernel, hInner (by decide +kernel), hSub (by decide +kernel), rfl,
    hRule first second canonical_first canonical_second (by decide +kernel), by decide +kernel,
    hPairs _ (List.forall_mem_cons.mpr ⟨canonical_first, ?_⟩)⟩
  exact List.forall_mem_singleton.mpr canonical_second

end PerformanceEstimation
