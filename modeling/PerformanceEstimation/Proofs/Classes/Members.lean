import Mathlib
import PerformanceEstimation.Proofs.Classes.Quadratics
import PerformanceEstimation.Proofs.Program.Layout

/-!
# Members of the function classes

`FunctionClass.Contains` says which functions on a Hilbert space a class is about; finite-dimensional
inner product spaces are among these. A smooth function lies between the quadratics of the least
and the largest curvature through each of its points, which is what the constraints of a smooth
class compare. No member is cut off by them, and a bound of a program holds for every member
(`interpolation_sound_of_contains`).
-/

set_option autoImplicit false

open scoped Gradient

namespace PerformanceEstimation

variable {E : Type*} [NormedAddCommGroup E] [InnerProductSpace ℝ E]

attribute [local instance] atLeastTwo_two

/-- Convexity of what is left of a function without a quadratic raises every quadratic minorant,
whatever its curvature, to the curvature that was taken away. -/
theorem Sample.quadratic_le_of_convexOn {f : E → ℝ} {mu a : ℝ} {s : Sample E}
    (hConvex : ConvexOn ℝ Set.univ fun x => f x - mu / 2 * ‖x‖ ^ 2)
    (hValue : f s.point = s.value) (hMinorant : ∀ z, s.quadratic a z ≤ f z) (z : E) :
    s.quadratic mu z ≤ f z := by
  obtain ⟨d, hd⟩ : ∃ d, z = s.point + d := ⟨z - s.point, by abel⟩
  -- on the way to `z` the two curvatures differ by a term of second order
  have hSegment (t : ℝ) (ht : t ∈ Set.Ioc (0 : ℝ) 1) :
      s.quadratic mu z + (a - mu) / 2 * ‖d‖ ^ 2 * t ≤ f z := by
    have hCombination : (1 - t) • s.point + t • z = s.point + t • d := by
      rw [hd]
      module
    have hUpper := hConvex.2 (Set.mem_univ s.point) (Set.mem_univ z) (sub_nonneg.mpr ht.2) ht.1.le
      (sub_add_cancel 1 t)
    have hLower := hMinorant (s.point + t • d)
    rw [hCombination] at hUpper
    simp only [Sample.quadratic, hd, add_sub_cancel_left, inner_smul_right, norm_smul, mul_pow,
      norm_add_sq_real, Real.norm_eq_abs, sq_abs, smul_eq_mul, hValue] at hUpper hLower ⊢
    refine le_of_mul_le_mul_left ?_ ht.1
    linarith
  have hLimit : Filter.Tendsto (fun t => s.quadratic mu z + (a - mu) / 2 * ‖d‖ ^ 2 * t)
      (nhdsWithin 0 (Set.Ioi 0)) (nhds (s.quadratic mu z)) := by
    refine Filter.Tendsto.mono_left ?_ nhdsWithin_le_nhds
    exact Continuous.tendsto' (by fun_prop) _ _ (by simp)
  exact le_of_tendsto hLimit (Filter.eventually_of_mem (Ioc_mem_nhdsGT one_pos) hSegment)

theorem Program.eval_metric_le {p : Program ℝ} {bound : ℝ} (r : Realization E)
    (hMetric : p.metric.GramBelow p.order)
    (hRows : ∀ row ∈ p.rows, row.2.constraint.lhs.GramBelow p.order)
    (hHold : ∀ row ∈ p.rows, row.2.constraint.HoldsAt r.gram r.value)
    (hBound : ∀ (G : SquareMatrix p.order) (F : ValueIndex → ℝ), G.PosSemidef →
      (∀ row ∈ p.rows, row.2.constraint.HoldsAt (entryAt G) F) →
      p.metric.evalAt (entryAt G) F ≤ bound) : r.eval p.metric ≤ bound := by
  rw [← r.evalAt_gramMatrix hMetric]
  refine hBound (r.gramMatrix p.order) r.value (r.posSemidef_gramMatrix p.order) fun row hRow => ?_
  have hEval := r.evalAt_gramMatrix (hRows row hRow)
  have hRowHold := hHold row hRow
  unfold Constraint.HoldsAt at hRowHold ⊢
  rwa [hEval]

variable [CompleteSpace E]

structure HasLipschitzGradient (l : ℝ) (f : E → ℝ) : Prop where
  differentiable : Differentiable ℝ f
  lipschitz : ∀ x y, ‖∇ f x - ∇ f y‖ ≤ l * ‖x - y‖

namespace HasLipschitzGradient

variable {l : ℝ} {f : E → ℝ}

theorem hasDerivAt_line (hf : Differentiable ℝ f) (x d : E) (t : ℝ) :
    HasDerivAt (fun t : ℝ => f (x + t • d)) (inner ℝ (∇ f (x + t • d)) d) t := by
  have hLine : HasDerivAt (fun t : ℝ => x + t • d) d t := by
    simpa using ((hasDerivAt_id t).smul_const d).const_add x
  exact (hf (x + t • d)).hasGradientAt.hasFDerivAt.comp_hasDerivAt t hLine

theorem abs_sub_tangent_le (h : HasLipschitzGradient l f) (x z : E) :
    |f z - (f x + inner ℝ (∇ f x) (z - x))| ≤ l / 2 * ‖z - x‖ ^ 2 := by
  obtain ⟨d, rfl⟩ : ∃ d, z = x + d := ⟨z - x, by abel⟩
  rw [add_sub_cancel_left]
  -- along the segment the departure from the tangent grows no faster than the bound
  have hDerivative (t : ℝ) :
      HasDerivAt (fun t : ℝ => f (x + t • d) - (f x + t * inner ℝ (∇ f x) d))
        (inner ℝ (∇ f (x + t • d)) d - inner ℝ (∇ f x) d) t := by
    refine (hasDerivAt_line h.differentiable x d t).sub ?_
    simpa using ((hasDerivAt_id t).mul_const (inner ℝ (∇ f x) d)).const_add (f x)
  have hBound (t : ℝ) : HasDerivAt (fun t => l / 2 * ‖d‖ ^ 2 * t ^ 2) (l * ‖d‖ ^ 2 * t) t := by
    refine ((hasDerivAt_pow 2 t).const_mul (l / 2 * ‖d‖ ^ 2)).congr_deriv ?_
    norm_num
    ring
  have hSlope (t : ℝ) (ht : t ∈ Set.Ico (0 : ℝ) 1) :
      ‖inner ℝ (∇ f (x + t • d)) d - inner ℝ (∇ f x) d‖ ≤ l * ‖d‖ ^ 2 * t := by
    rw [← inner_sub_left]
    calc
      ‖inner ℝ (∇ f (x + t • d) - ∇ f x) d‖ ≤ ‖∇ f (x + t • d) - ∇ f x‖ * ‖d‖ :=
        norm_inner_le_norm _ _
      _ ≤ l * ‖x + t • d - x‖ * ‖d‖ := by gcongr; exact h.lipschitz _ _
      _ = l * ‖d‖ ^ 2 * t := by
        rw [add_sub_cancel_left, norm_smul, Real.norm_of_nonneg ht.1]
        ring
  have hStart : ‖f (x + (0 : ℝ) • d) - (f x + 0 * inner ℝ (∇ f x) d)‖ ≤
      l / 2 * ‖d‖ ^ 2 * 0 ^ 2 := by simp
  have hEnd := image_norm_le_of_norm_deriv_right_le_deriv_boundary
    (fun t _ => (hDerivative t).continuousAt.continuousWithinAt)
    (fun t _ => (hDerivative t).hasDerivWithinAt) hStart hBound hSlope
    (Set.right_mem_Icc.mpr zero_le_one)
  simpa using hEnd

end HasLipschitzGradient

noncomputable def firstOrder (f : E → ℝ) (x : E) : Sample E :=
  ⟨x, ∇ f x, f x⟩

theorem HasLipschitzGradient.quadratic_bounds {l : ℝ} {f : E → ℝ} (h : HasLipschitzGradient l f)
    (x z : E) :
    (firstOrder f x).quadratic (-l) z ≤ f z ∧ f z ≤ (firstOrder f x).quadratic l z := by
  obtain ⟨hLower, hUpper⟩ := abs_le.mp (h.abs_sub_tangent_le x z)
  simp only [Sample.quadratic, firstOrder]
  constructor
  · linarith
  · linarith

namespace FunctionClass

/-- The functions that a class is about. Operators are none, and a rule does not tell. -/
def Contains : FunctionClass ℝ → (E → ℝ) → Prop
  | convex, f => ConvexOn ℝ Set.univ f
  | stronglyConvex mu, f => ConvexOn ℝ Set.univ fun x => f x - mu / 2 * ‖x‖ ^ 2
  | convexLipschitz m, f => ConvexOn ℝ Set.univ f ∧ ∀ x y, |f x - f y| ≤ m * ‖x - y‖
  | smooth l, f => HasLipschitzGradient l f
  | smoothConvex l, f => HasLipschitzGradient l f ∧ ConvexOn ℝ Set.univ f
  | smoothStronglyConvex mu l, f =>
    HasLipschitzGradient l f ∧ ConvexOn ℝ Set.univ fun x => f x - mu / 2 * ‖x‖ ^ 2
  | _, _ => False

section Smooth

variable {c : FunctionClass ℝ} {mu l : ℝ} {f : E → ℝ}

theorem HasCurvature.hasLipschitzGradient (hClass : HasCurvature c mu l) (hf : c.Contains f) :
    HasLipschitzGradient l f := by
  cases hClass with
  | smooth => exact hf
  | smoothConvex | smoothStronglyConvex => exact hf.1

theorem HasCurvature.quadratic_le (hClass : HasCurvature c mu l) (hf : c.Contains f) (x z : E) :
    (firstOrder f x).quadratic mu z ≤ f z := by
  -- the gradient bounds the curvature by `-l`, and convexity may give more
  have hGradient (z : E) : (firstOrder f x).quadratic (-l) z ≤ f z :=
    ((hClass.hasLipschitzGradient hf).quadratic_bounds x z).1
  cases hClass with
  | smooth => exact hGradient z
  | smoothConvex =>
    have hConvex : ConvexOn ℝ Set.univ fun x => f x - 0 / 2 * ‖x‖ ^ 2 := by simpa using hf.2
    exact Sample.quadratic_le_of_convexOn hConvex rfl hGradient z
  | smoothStronglyConvex => exact Sample.quadratic_le_of_convexOn hf.2 rfl hGradient z

/-- A function lies between the quadratics through any two of its points. -/
theorem HasCurvature.excess_firstOrder_nonpos (hClass : HasCurvature c mu l) (hc : c.Valid)
    (hf : c.Contains f) (x y : E) : c.excess (firstOrder f x) (firstOrder f y) ≤ 0 := by
  rw [hClass.excess_nonpos_iff hc]
  intro z
  exact (hClass.quadratic_le hf y z).trans ((hClass.hasLipschitzGradient hf).quadratic_bounds x z).2

end Smooth

/-- No member of a smooth class is cut off. Where all triples stand for points, gradients and values
of a member, the constraints of the class evaluate to at most zero; and an upper bound of a program
is one of its metric there, if the other rows of the program hold. -/
theorem interpolation_sound_of_contains {c : FunctionClass ℝ} (hSmooth : c.isSmooth = true)
    (hc : c.validate = .ok ()) {f : E → ℝ} (hf : c.Contains f) (r : Realization E)
    {triples : List (Triple ℝ)} (hTriples : ∀ t ∈ triples, ∃ x, r.sample t = ⟨x, ∇ f x, f x⟩) :
    (∀ i ∈ c.interpolation triples,
      i.constraint.sense = .lessEq ∧ r.eval i.constraint.lhs ≤ 0) ∧
    ∀ (p : Program ℝ) (bound : ℝ), p.metric.GramBelow p.order →
      (∀ row ∈ p.rows, row.2.constraint.lhs.GramBelow p.order ∧
        (row.2.constraint.HoldsAt r.gram r.value ∨
          ∃ i ∈ c.interpolation triples, row.2.constraint = i.constraint)) →
      (∀ (G : SquareMatrix p.order) (F : ValueIndex → ℝ), G.PosSemidef →
        (∀ row ∈ p.rows, row.2.constraint.HoldsAt (entryAt G) F) →
        p.metric.evalAt (entryAt G) F ≤ bound) →
      r.eval p.metric ≤ bound := by
  obtain ⟨mu, l, hClass⟩ := exists_hasCurvature hSmooth
  have hAdmits : c.Admits (triples.map r.sample) := by
    constructor
    · simp only [List.forall_mem_map]
      intro tk hk tl hl
      obtain ⟨x, hx⟩ := hTriples tk hk
      obtain ⟨y, hy⟩ := hTriples tl hl
      rw [hx, hy]
      exact hClass.excess_firstOrder_nonpos (validate_eq_ok_iff.mp hc) hf x y
    · rintro m rfl
      cases hSmooth
  have hHold := (interpolation_hold_iff_admits r hClass.isBuiltIn).mpr hAdmits
  refine ⟨fun i hi => ?_, fun p bound hMetric hRows hBound => ?_⟩
  · have hSense := sense_of_mem_interpolation hClass.isBuiltIn hi
    exact ⟨hSense, (Constraint.holdsAt_lessEq _ _ hSense).mp (hHold i hi)⟩
  · refine Program.eval_metric_le r hMetric (fun row hRow => (hRows row hRow).1) ?_ hBound
    intro row hRow
    obtain ⟨-, hRowHold | ⟨i, hi, hConstraint⟩⟩ := hRows row hRow
    · exact hRowHold
    · exact hConstraint ▸ hHold i hi

section Example

noncomputable def halfSquare (x : ℝ) : ℝ :=
  x ^ 2 / 2

theorem gradient_halfSquare (x : ℝ) : ∇ halfSquare x = x := by
  have hDerivative : HasDerivAt halfSquare x x := by
    refine ((hasDerivAt_pow 2 x).div_const 2).congr_deriv ?_
    norm_num
  rw [gradient_eq_deriv', hDerivative.deriv]

theorem contains_halfSquare : (smoothStronglyConvex (1 / 2) 1).Contains halfSquare := by
  refine ⟨⟨?_, fun x y => ?_⟩, ?_⟩
  · unfold halfSquare
    fun_prop
  · rw [gradient_halfSquare, gradient_halfSquare, one_mul]
  · have hRest (x : ℝ) : halfSquare x - 1 / 2 / 2 * ‖x‖ ^ 2 = 1 / 4 * x ^ 2 := by
      rw [halfSquare, Real.norm_eq_abs, sq_abs]
      ring
    simp only [hRest]
    exact (even_two.convexOn_pow).smul (by norm_num)

theorem interpolation_sound_of_contains_halfSquare :
    (smoothStronglyConvex (1 / 2) 1).Contains halfSquare ∧
    ∀ i ∈ (smoothStronglyConvex (1 / 2) 1).interpolation oppositeTriples,
      i.constraint.sense = .lessEq ∧ (oppositePoints (1 / 2)).eval i.constraint.lhs ≤ 0 := by
  have hc : (smoothStronglyConvex (1 / 2 : ℝ) 1).validate = .ok () :=
    validate_eq_ok_iff.mpr ⟨by norm_num, by norm_num⟩
  have hSamples : ∀ s ∈ oppositeTriples.map (oppositePoints (1 / 2)).sample,
      ∃ x, s = ⟨x, ∇ halfSquare x, halfSquare x⟩ := by
    rw [sample_oppositeTriples]
    simp only [gradient_halfSquare, halfSquare, List.mem_cons, List.not_mem_nil, or_false]
    rintro s (rfl | rfl)
    · exact ⟨-1, by norm_num⟩
    · exact ⟨1, by norm_num⟩
  exact ⟨contains_halfSquare, (interpolation_sound_of_contains rfl hc contains_halfSquare
    (oppositePoints (1 / 2)) fun t ht => hSamples _ (List.mem_map_of_mem ht)).1⟩

end Example

end FunctionClass

end PerformanceEstimation
