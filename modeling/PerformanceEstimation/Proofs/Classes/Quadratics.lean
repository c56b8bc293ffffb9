import Mathlib
import PerformanceEstimation.Proofs.Classes.Inequalities

/-!
# Quadratics through a sample

`Sample.quadratic s a` is the quadratic function of curvature `a` with the value and the gradient of
the sample. The inequalities of the function classes compare such quadratics: those of the smooth
classes say that the quadratic of the least curvature through one sample lies nowhere above that of
the largest curvature through the other (`HasCurvature.excess_nonpos_iff`), those of the other
classes that it does not lie above the other sample.
-/

set_option autoImplicit false

namespace PerformanceEstimation

variable {E : Type*} [NormedAddCommGroup E] [InnerProductSpace ℝ E]

attribute [local instance] atLeastTwo_two

namespace Sample

variable (s t : Sample E)

noncomputable def quadratic (a : ℝ) (z : E) : ℝ :=
  s.value + inner ℝ s.gradient (z - s.point) + a / 2 * ‖z - s.point‖ ^ 2

@[simp] theorem quadratic_point (a : ℝ) : s.quadratic a s.point = s.value := by
  simp [quadratic]

theorem quadratic_mono {a b : ℝ} (h : a ≤ b) (z : E) : s.quadratic a z ≤ s.quadratic b z := by
  unfold quadratic
  gcongr

/-- Where the quadratic of curvature `a` through `t` exceeds that of curvature `b` through `s` by
most. -/
noncomputable def peak (a b : ℝ) : E :=
  s.point + (b - a)⁻¹ • (a • (s.point - t.point) - (s.gradient - t.gradient))

end Sample

namespace FunctionClass

variable {s t : Sample E}

theorem excess_convex : convex.excess s t = t.quadratic 0 s.point - s.value := by
  simp only [excess, Sample.quadratic]
  ring

theorem excess_convexLipschitz (m : ℝ) :
    (convexLipschitz m).excess s t = t.quadratic 0 s.point - s.value :=
  excess_convex

theorem excess_stronglyConvex (mu : ℝ) :
    (stronglyConvex mu).excess s t = t.quadratic mu s.point - s.value := by
  simp only [excess, Sample.quadratic]
  ring

theorem excess_smoothConvex (l : ℝ) :
    (smoothConvex l).excess s t = (smoothStronglyConvex 0 l).excess s t := by
  simp only [excess]
  ring

/-- A smooth function has curvature at least `-l`. -/
theorem excess_smooth {l : ℝ} (hl : l ≠ 0) :
    (smooth l).excess s t = (smoothStronglyConvex (-l) l).excess s t := by
  have hGradient : inner ℝ (s.gradient + t.gradient) (s.point - t.point) =
      inner ℝ (s.gradient - t.gradient) (s.point - t.point) +
        2 * inner ℝ t.gradient (s.point - t.point) := by
    rw [inner_add_left, inner_sub_left]
    ring
  simp only [excess, hGradient]
  field_simp
  ring

variable (s t) in
/-- The difference of the quadratics is a square below its largest value. -/
theorem quadratic_sub_quadratic {mu l : ℝ} (hl : l ≠ 0) (hmu : l - mu ≠ 0) (z : E) :
    t.quadratic mu z - s.quadratic l z =
      (smoothStronglyConvex mu l).excess s t - (l - mu) / 2 * ‖z - s.peak t mu l‖ ^ 2 := by
  have hNear : z - t.point = (z - s.point) + (s.point - t.point) := by abel
  have hPeak : z - s.peak t mu l = (z - s.point) -
      (l - mu)⁻¹ • (mu • (s.point - t.point) - (s.gradient - t.gradient)) :=
    (sub_sub _ _ _).symm
  have hGradient : inner ℝ s.gradient (z - s.point) = inner ℝ t.gradient (z - s.point) +
      inner ℝ (z - s.point) (s.gradient - t.gradient) := by
    rw [real_inner_comm (s.gradient - t.gradient), inner_sub_left]
    ring
  have hCurvature : 1 - mu / l ≠ 0 := by
    rw [one_sub_div hl]
    exact div_ne_zero hmu hl
  simp only [Sample.quadratic, excess, hNear, hPeak, hGradient]
  -- an identity of norms and inner products of three vectors
  generalize z - s.point = u
  generalize s.point - t.point = d
  generalize s.gradient - t.gradient = e
  rw [norm_add_sq_real, norm_sub_sq_real, norm_smul, mul_pow, norm_sub_sq_real, inner_smul_right,
    inner_sub_right, inner_smul_right, norm_smul, mul_pow, real_inner_smul_left, inner_add_right,
    real_inner_comm e d, Real.norm_eq_abs, Real.norm_eq_abs, sq_abs, sq_abs]
  field_simp
  ring

theorem excess_smoothStronglyConvex_nonpos_iff {mu l : ℝ} (hl : 0 < l) (hmu : mu < l) :
    (smoothStronglyConvex mu l).excess s t ≤ 0 ↔ ∀ z, t.quadratic mu z ≤ s.quadratic l z := by
  have hGap : 0 < l - mu := sub_pos.mpr hmu
  constructor
  · intro h z
    have hDifference := quadratic_sub_quadratic s t hl.ne' hGap.ne' z
    have hSquare : 0 ≤ (l - mu) / 2 * ‖z - s.peak t mu l‖ ^ 2 := by positivity
    linarith
  · intro h
    have hDifference := quadratic_sub_quadratic s t hl.ne' hGap.ne' (s.peak t mu l)
    rw [sub_self, norm_zero] at hDifference
    linarith [h (s.peak t mu l)]

section Curvature

def isSmooth {α : Type} : FunctionClass α → Bool
  | smooth _ | smoothConvex _ | smoothStronglyConvex .. => true
  | _ => false

/-- The smooth classes, with the least and the largest curvature of their functions. -/
inductive HasCurvature : FunctionClass ℝ → ℝ → ℝ → Prop
  | smooth (l : ℝ) : HasCurvature (smooth l) (-l) l
  | smoothConvex (l : ℝ) : HasCurvature (smoothConvex l) 0 l
  | smoothStronglyConvex (mu l : ℝ) : HasCurvature (smoothStronglyConvex mu l) mu l

theorem exists_hasCurvature {c : FunctionClass ℝ} (h : c.isSmooth = true) :
    ∃ mu l, HasCurvature c mu l := by
  cases c with
  | smooth l => exact ⟨_, _, .smooth l⟩
  | smoothConvex l => exact ⟨_, _, .smoothConvex l⟩
  | smoothStronglyConvex mu l => exact ⟨_, _, .smoothStronglyConvex mu l⟩
  | _ => cases h

theorem HasCurvature.isBuiltIn {c : FunctionClass ℝ} {mu l : ℝ} (h : HasCurvature c mu l) :
    c.isBuiltIn = true := by
  cases h <;> rfl

theorem HasCurvature.lt {c : FunctionClass ℝ} {mu l : ℝ} (h : HasCurvature c mu l)
    (hc : c.Valid) : mu < l ∧ 0 < l := by
  cases h with
  | smooth => exact ⟨neg_lt_self hc, hc⟩
  | smoothConvex => exact ⟨hc, hc⟩
  | smoothStronglyConvex => exact ⟨hc.2, hc.1.trans_lt hc.2⟩

/-- The inequality of a smooth class, without its constants: nowhere does the quadratic of the
least curvature through `t` lie above that of the largest curvature through `s`. -/
theorem HasCurvature.excess_nonpos_iff {c : FunctionClass ℝ} {mu l : ℝ} (h : HasCurvature c mu l)
    (hc : c.Valid) : c.excess s t ≤ 0 ↔ ∀ z, t.quadratic mu z ≤ s.quadratic l z := by
  obtain ⟨hmu, hl⟩ := h.lt hc
  rw [← excess_smoothStronglyConvex_nonpos_iff hl hmu]
  cases h with
  | smooth => rw [excess_smooth hl.ne']
  | smoothConvex => rw [excess_smoothConvex]
  | smoothStronglyConvex => rfl

end Curvature

section Modulus

def isNonsmooth {α : Type} : FunctionClass α → Bool
  | convex | stronglyConvex _ | convexLipschitz _ => true
  | _ => false

/-- The classes of convex functions, with the curvature that their functions have at least. -/
inductive HasModulus : FunctionClass ℝ → ℝ → Prop
  | convex : HasModulus convex 0
  | stronglyConvex (mu : ℝ) : HasModulus (stronglyConvex mu) mu
  | convexLipschitz (m : ℝ) : HasModulus (convexLipschitz m) 0

theorem exists_hasModulus {c : FunctionClass ℝ} (h : c.isNonsmooth = true) :
    ∃ mu, HasModulus c mu := by
  cases c with
  | convex => exact ⟨_, .convex⟩
  | stronglyConvex mu => exact ⟨_, .stronglyConvex mu⟩
  | convexLipschitz m => exact ⟨_, .convexLipschitz m⟩
  | _ => cases h

theorem HasModulus.isBuiltIn {c : FunctionClass ℝ} {mu : ℝ} (h : HasModulus c mu) :
    c.isBuiltIn = true := by
  cases h <;> rfl

theorem HasModulus.nonneg {c : FunctionClass ℝ} {mu : ℝ} (h : HasModulus c mu) (hc : c.Valid) :
    0 ≤ mu := by
  cases h with
  | convex | convexLipschitz => exact le_rfl
  | stronglyConvex => exact hc.le

theorem HasModulus.excess_nonpos_iff {c : FunctionClass ℝ} {mu : ℝ} (h : HasModulus c mu) :
    c.excess s t ≤ 0 ↔ t.quadratic mu s.point ≤ s.value := by
  rw [← sub_nonpos (b := s.value)]
  cases h with
  | convex => rw [excess_convex]
  | convexLipschitz => rw [excess_convexLipschitz]
  | stronglyConvex => rw [excess_stronglyConvex]

end Modulus

end FunctionClass

end PerformanceEstimation
