import Mathlib
import PerformanceEstimation.Proofs.Algebra.NormalForm
import PerformanceEstimation.Proofs.Classes.Inequalities

/-!
# Smooth strongly convex functions without curvature

The rule of smooth strongly convex functions at modulus zero is that of smooth convex functions, as
symbols and not only in value: the terms that the modulus multiplies vanish from the combinations,
and two factors in a row are one factor. This needs no canonical form.

At any modulus below the smoothness the rule is the one in which the square is completed,
`completedSquareRule`. The two expand their products in different orders, and terms cancel in one
that do not arise in the other. They agree because in canonical form an expression is known by its
values.
-/

set_option autoImplicit false

namespace PerformanceEstimation

section Forms

variable {α : Type} [Scalar α]

structure Triple.Canonical (t : Triple α) : Prop where
  point : t.point.Canonical
  gradient : t.gradient.Canonical
  value : t.value.Canonical

end Forms

section Factors

namespace Terms

variable {κ : Type} [Key κ]

theorem axpy_nil_cons (k : κ) (a c : ℝ) (x : Terms κ ℝ) :
    axpy [] c ((k, a) :: x) = consNonzero k (c * a) (axpy [] c x) := by
  rw [axpy, addThen, zero_real, zero_add]

theorem axpy_nil_zero (x : Terms κ ℝ) : axpy [] 0 x = [] := by
  induction x with
  | nil => rfl
  | cons head x ih =>
    obtain ⟨k, a⟩ := head
    rw [axpy_nil_cons, ih, zero_mul, consNonzero, isZero_real, decide_eq_true rfl, if_pos rfl]

theorem axpy_nil_axpy_nil {c : ℝ} (hc : c ≠ 0) (b : ℝ) (x : Terms κ ℝ) :
    axpy [] c (axpy [] b x) = axpy [] (c * b) x := by
  -- the outer factor is not zero, so both sides drop the same terms
  induction x with
  | nil => rfl
  | cons head x ih =>
    obtain ⟨k, a⟩ := head
    by_cases h : b * a = 0
    · have hProduct : c * b * a = 0 := by rw [mul_assoc, h, mul_zero]
      simpa only [axpy_nil_cons, consNonzero, isZero_real, h, hProduct, decide_true, if_true]
        using ih
    · have hProduct : c * b * a ≠ 0 := mul_assoc c b a ▸ mul_ne_zero hc h
      simp [axpy_nil_cons, consNonzero, h, ih, hc, mul_assoc]

end Terms

namespace Expression

@[simp] protected theorem zero_mul (e : Expression ℝ) : (0 : ℝ) * e = (0 : Expression ℝ) := by
  refine ext_of_parts (Terms.axpy_nil_zero e.values) (Terms.axpy_nil_zero e.gram) ?_
  change (0 : Expression ℝ).constant + 0 * e.constant = (0 : Expression ℝ).constant
  rw [zero_mul, add_zero]

protected theorem mul_mul {c : ℝ} (hc : c ≠ 0) (b : ℝ) (e : Expression ℝ) :
    c * (b * e) = (c * b : ℝ) * e := by
  refine ext_of_parts (Terms.axpy_nil_axpy_nil hc b e.values)
    (Terms.axpy_nil_axpy_nil hc b e.gram) ?_
  change (0 : Expression ℝ).constant + c * ((0 : Expression ℝ).constant + b * e.constant) =
    (0 : Expression ℝ).constant + c * b * e.constant
  rw [constant_zero, zero_add, zero_add, zero_add, mul_assoc]

end Expression

end Factors

theorem Interpolation.orderedPairs_congr {α : Type} [Scalar α]
    {rule rule' : Triple α → Triple α → Constraint α} {triples : List (Triple α)}
    (h : ∀ tk ∈ triples, ∀ tl ∈ triples, rule tk tl = rule' tk tl) :
    orderedPairs rule triples = orderedPairs rule' triples := by
  have hMem {p : Triple α × ℕ} (hp : p ∈ triples.zipIdx) : p.1 ∈ triples :=
    List.fst_mem_of_mem_zipIdx hp
  refine List.flatMap_congr fun p hp => List.filterMap_congr fun q hq => ?_
  change (if p.2 = q.2 then none else nontrivial? p.2 q.2 (rule p.1 q.1)) = _
  rw [h p.1 (hMem hp) q.1 (hMem hq)]

attribute [local instance] atLeastTwo_two

namespace FunctionClass

/-- What the rule adds to that of convex functions. -/
theorem curvature_zero (l : ℝ) (dx dg : Point ℝ) :
    (1 / (2 * (1 - 0 / l)) : ℝ) * ((1 / l : ℝ) * dg.normSq + (0 : ℝ) * dx.normSq
      - (2 * 0 / l : ℝ) * dg.inner dx) = (1 / (2 * l) : ℝ) * dg.normSq := by
  have hOuter : (1 / (2 * (1 - 0 / l)) : ℝ) = 1 / 2 := by norm_num
  have hFactors : (1 / 2 * (1 / l) : ℝ) = 1 / (2 * l) := one_div_mul_one_div 2 l
  rw [hOuter, mul_zero, zero_div, Expression.zero_mul, Expression.zero_mul, Expression.add_zero,
    Expression.sub_zero, Expression.mul_mul (by norm_num), hFactors]

theorem smoothStronglyConvexRule_zero (tk tl : Triple ℝ) (l : ℝ) :
    smoothStronglyConvexRule tk tl 0 l = smoothConvexRule tk tl l := by
  have hCurvature := curvature_zero l (tk.point - tl.point) (tk.gradient - tl.gradient)
  simp only [smoothStronglyConvexRule, smoothConvexRule, one_real]
  exact congrArg (fun e => Expression.le (_ + e) 0) hCurvature

open Scalar in
/-- The gap to the affine minorant, the quadratic of the modulus, and the squared norm of what the
gradients differ by beyond it. -/
def completedSquareRule {α : Type} [Scalar α] (tk tl : Triple α) (mu l : α) : Constraint α :=
  let dx := tk.point - tl.point
  let dg := tk.gradient - tl.gradient
  (tl.value - tk.value
    + tl.gradient.inner dx
    + (mu / 2 : α) * dx.normSq
    + (1 / (2 * (l - mu)) : α) * (dg - mu * dx).normSq).le 0

section Forms

variable {α : Type} [Scalar α] {tk tl : Triple α}

theorem canonical_convexityGap (hk : tk.Canonical) (hl : tl.Canonical) :
    (convexityGap tk tl).Canonical :=
  (hl.value.sub hk.value).add ((hk.point.sub hl.point).inner _)

theorem canonical_smoothStronglyConvexRule (hk : tk.Canonical) (hl : tl.Canonical) (mu l : α) :
    (smoothStronglyConvexRule tk tl mu l).lhs.Canonical := by
  have hGap := canonical_convexityGap hk hl
  have hPoint := hk.point.sub hl.point
  have hGradient := hk.gradient.sub hl.gradient
  exact (hGap.add <| .mul (.sub (.add (.mul (hGradient.inner _) _) (.mul (hPoint.inner _) _))
    (.mul (hPoint.inner _) _)) _).sub (Expression.canonical_const _)

theorem canonical_completedSquareRule (hk : tk.Canonical) (hl : tl.Canonical) (mu l : α) :
    (completedSquareRule tk tl mu l).lhs.Canonical := by
  have hGap := canonical_convexityGap hk hl
  have hPoint := hk.point.sub hl.point
  have hBeyond := (hk.gradient.sub hl.gradient).sub (hPoint.scale mu)
  exact ((hGap.add (.mul (hPoint.inner _) _)).add (.mul (hBeyond.inner _) _)).sub
    (Expression.canonical_const _)

end Forms

section Square

variable {E : Type*} [NormedAddCommGroup E] [InnerProductSpace ℝ E]

theorem curvature_eq_completed {mu l : ℝ} (hl : l ≠ 0) (hmu : l - mu ≠ 0) (dx dg : E) :
    1 / (2 * (1 - mu / l)) * (‖dg‖ ^ 2 / l + mu * ‖dx‖ ^ 2 - 2 * mu / l * inner ℝ dg dx) =
      mu / 2 * ‖dx‖ ^ 2 + 1 / (2 * (l - mu)) * ‖dg - mu • dx‖ ^ 2 := by
  have hSquare : ‖dg - mu • dx‖ ^ 2 = ‖dg‖ ^ 2 - 2 * (mu * inner ℝ dg dx) + mu ^ 2 * ‖dx‖ ^ 2 := by
    rw [norm_sub_sq_real, real_inner_smul_right, norm_smul, mul_pow, Real.norm_eq_abs, sq_abs]
  have hOuter : 1 - mu / l = (l - mu) / l := by
    rw [sub_div, div_self hl]
  rw [hSquare, hOuter]
  field_simp
  ring

theorem eval_completedSquareRule (r : Realization E) (tk tl : Triple ℝ) {mu l : ℝ} (hl : l ≠ 0)
    (hmu : l - mu ≠ 0) : r.eval (completedSquareRule tk tl mu l).lhs =
      r.eval (smoothStronglyConvexRule tk tl mu l).lhs := by
  have hRule : r.eval (smoothStronglyConvexRule tk tl mu l).lhs =
      (smoothStronglyConvex mu l).excess (r.sample tk) (r.sample tl) :=
    eval_pairRule r tk tl (c := smoothStronglyConvex mu l) rfl
  rw [hRule]
  simp only [excess]
  rw [curvature_eq_completed hl hmu]
  simp [completedSquareRule, Expression.le, Realization.sample, add_assoc]

end Square

theorem divisors_ne_zero {mu l : ℝ} (hValid : (smoothStronglyConvex mu l).Valid) :
    l ≠ 0 ∧ 2 * (1 - mu / l) ≠ 0 ∧ 2 * (l - mu) ≠ 0 := by
  have hPos : 0 < l := hValid.1.trans_lt hValid.2
  have hRatio : mu / l < 1 := (div_lt_one hPos).mpr hValid.2
  exact ⟨hPos.ne', mul_ne_zero two_ne_zero (sub_pos.mpr hRatio).ne',
    mul_ne_zero two_ne_zero (sub_pos.mpr hValid.2).ne'⟩

theorem smoothStronglyConvexRule_eq_completed {tk tl : Triple ℝ} (hk : tk.Canonical)
    (hl : tl.Canonical) {mu l : ℝ} (hValid : (smoothStronglyConvex mu l).Valid) :
    smoothStronglyConvexRule tk tl mu l = completedSquareRule tk tl mu l := by
  have hPos : 0 < l := hValid.1.trans_lt hValid.2
  refine congrArg (Constraint.mk · .lessEq) ?_
  refine (canonical_smoothStronglyConvexRule hk hl mu l).eq_of_forall_eval_eq (E := ℝ)
    (canonical_completedSquareRule hk hl mu l) fun r => ?_
  exact (eval_completedSquareRule r tk tl hPos.ne' (sub_pos.mpr hValid.2).ne').symm

/-- At modulus zero the class generates the very constraints of smooth convex functions: the same
pairs in the same order, the same ones left out. For parameters that pass the check the rule never
divides by zero, and its constraints are those with the square completed. -/
theorem smoothStronglyConvex_degenerates :
    (∀ l : ℝ, 0 < l → ∀ triples : List (Triple ℝ),
      (smoothStronglyConvex 0 l).interpolation triples =
        (smoothConvex l).interpolation triples) ∧
    ∀ mu l : ℝ, (smoothStronglyConvex mu l).validate = .ok () →
      (l ≠ 0 ∧ 2 * (1 - mu / l) ≠ 0 ∧ 2 * (l - mu) ≠ 0) ∧
      (∀ tk tl : Triple ℝ, tk.Canonical → tl.Canonical →
        smoothStronglyConvexRule tk tl mu l = completedSquareRule tk tl mu l) ∧
      ∀ triples : List (Triple ℝ), (∀ t ∈ triples, t.Canonical) →
        (smoothStronglyConvex mu l).interpolation triples =
          Interpolation.orderedPairs (completedSquareRule · · mu l) triples := by
  refine ⟨fun l _ triples => ?_, fun mu l hValidate => ?_⟩
  · rw [interpolation, interpolation]
    exact Interpolation.orderedPairs_congr fun tk _ tl _ => smoothStronglyConvexRule_zero tk tl l
  · have hValid := validate_eq_ok_iff.mp hValidate
    refine ⟨divisors_ne_zero hValid, fun tk tl hk hl => ?_, fun triples hTriples => ?_⟩
    · exact smoothStronglyConvexRule_eq_completed hk hl hValid
    · rw [interpolation]
      exact Interpolation.orderedPairs_congr fun tk hk tl hl =>
        smoothStronglyConvexRule_eq_completed (hTriples tk hk) (hTriples tl hl) hValid

theorem canonical_oppositeTriples : ∀ t ∈ oppositeTriples, t.Canonical := by
  have hSample (i : BasisIndex) (k : ValueIndex) :
      Triple.Canonical (α := ℝ) ⟨.ofBasis i, .ofBasis i, .ofValue k⟩ :=
    ⟨Point.canonical_ofBasis i, Point.canonical_ofBasis i, Expression.canonical_ofValue k⟩
  simp [oppositeTriples, hSample]

theorem smoothStronglyConvex_degenerates_opposite :
    (0 : ℝ) < 2 ∧
    (smoothStronglyConvex (0 : ℝ) 2).interpolation oppositeTriples =
      (smoothConvex 2).interpolation oppositeTriples ∧
    (smoothStronglyConvex (1 : ℝ) 2).validate = .ok () ∧
    (∀ t ∈ oppositeTriples, t.Canonical) ∧
    (smoothStronglyConvex (1 : ℝ) 2).interpolation oppositeTriples =
      Interpolation.orderedPairs (completedSquareRule · · 1 2) oppositeTriples := by
  have hValidate : (smoothStronglyConvex (1 : ℝ) 2).validate = .ok () :=
    validate_eq_ok_iff.mpr ⟨zero_le_one, one_lt_two⟩
  have hZero := smoothStronglyConvex_degenerates.1 2 two_pos oppositeTriples
  have hCompleted := (smoothStronglyConvex_degenerates.2 1 2 hValidate).2.2 oppositeTriples
    canonical_oppositeTriples
  exact ⟨two_pos, hZero, hValidate, canonical_oppositeTriples, hCompleted⟩

end FunctionClass

end PerformanceEstimation
