import Mathlib
import PerformanceEstimation.Proofs.Classes.Members

/-!
# Interpolation by envelopes

The classes of convex functions without smoothness are described exactly: their constraints hold if
and only if some member passes through the triples with the given subgradients
(`interpolation_hold_iff_exists_member`). A member lies above the quadratics through its samples.
In the other direction the largest of these quadratics is a member, `Sample.envelope`; it is the
quadratic of the class and the largest of finitely many affine functions.
-/

set_option autoImplicit false

namespace PerformanceEstimation

variable {E : Type*} [NormedAddCommGroup E] [InnerProductSpace ℝ E]

attribute [local instance] atLeastTwo_two

def IsSubgradientAt (f : E → ℝ) (g x : E) : Prop :=
  ∀ z, f x + inner ℝ g (z - x) ≤ f z

namespace Sample

/-- The quadratic through a sample without its curvature. -/
noncomputable def affine (s : Sample E) (mu : ℝ) (z : E) : ℝ :=
  s.quadratic mu z - mu / 2 * ‖z‖ ^ 2

theorem affine_eq (s : Sample E) (mu : ℝ) (z : E) : s.affine mu z =
    s.value - inner ℝ s.gradient s.point + mu / 2 * ‖s.point‖ ^ 2 +
      inner ℝ (s.gradient - mu • s.point) z := by
  rw [affine, quadratic, norm_sub_sq_real, inner_sub_right, inner_sub_left, real_inner_smul_left,
    real_inner_comm z s.point]
  ring

theorem affine_combination (s : Sample E) (mu : ℝ) {x y : E} {a b : ℝ} (h : a + b = 1) :
    s.affine mu (a • x + b • y) = a * s.affine mu x + b * s.affine mu y := by
  obtain rfl : b = 1 - a := eq_sub_of_add_eq' h
  simp only [affine_eq, inner_add_right, inner_smul_right]
  ring

/-- The largest of the affine functions of the samples, zero without any. -/
noncomputable def affineMax (samples : List (Sample E)) (mu : ℝ) (z : E) : ℝ :=
  ⨆ k : Fin samples.length, samples[k].affine mu z

noncomputable def envelope (samples : List (Sample E)) (mu : ℝ) (z : E) : ℝ :=
  mu / 2 * ‖z‖ ^ 2 + affineMax samples mu z

variable {samples : List (Sample E)} {mu : ℝ} {s : Sample E}

theorem affine_le_affineMax (hs : s ∈ samples) (z : E) :
    s.affine mu z ≤ affineMax samples mu z := by
  obtain ⟨k, hk, rfl⟩ := List.mem_iff_getElem.mp hs
  exact le_ciSup (f := fun k : Fin samples.length => samples[k].affine mu z)
    (Finite.bddAbove_range _) ⟨k, hk⟩

theorem affineMax_eq_zero_or (samples : List (Sample E)) (mu : ℝ) (z : E) :
    samples = [] ∧ affineMax samples mu = 0 ∨
      ∃ s ∈ samples, s.affine mu z = affineMax samples mu z := by
  cases samples with
  | nil =>
    have : IsEmpty (Fin ([] : List (Sample E)).length) := inferInstanceAs (IsEmpty (Fin 0))
    exact .inl ⟨rfl, funext fun z => Real.iSup_of_isEmpty _⟩
  | cons s samples =>
    obtain ⟨k, hk⟩ := exists_eq_ciSup_of_finite
      (f := fun k : Fin (s :: samples).length => (s :: samples)[k].affine mu z)
    exact .inr ⟨(s :: samples)[k], List.getElem_mem _, hk⟩

theorem convexOn_affineMax (samples : List (Sample E)) (mu : ℝ) :
    ConvexOn ℝ Set.univ (affineMax samples mu) := by
  refine ⟨convex_univ, fun x _ y _ a b ha hb hab => ?_⟩
  rcases affineMax_eq_zero_or samples mu (a • x + b • y) with ⟨-, hZero⟩ | ⟨s, hs, hMax⟩
  · simp [hZero]
  · -- what attains the largest value at the combination is below it at both ends
    rw [← hMax, s.affine_combination mu hab, smul_eq_mul, smul_eq_mul]
    gcongr
    · exact affine_le_affineMax hs x
    · exact affine_le_affineMax hs y

theorem quadratic_le_envelope (hs : s ∈ samples) (z : E) :
    s.quadratic mu z ≤ envelope samples mu z :=
  sub_le_iff_le_add'.mp (affine_le_affineMax hs z)

theorem exists_quadratic_eq_envelope (hs : s ∈ samples) (mu : ℝ) (z : E) :
    ∃ t ∈ samples, t.quadratic mu z = envelope samples mu z := by
  rcases affineMax_eq_zero_or samples mu z with ⟨rfl, -⟩ | ⟨t, ht, hMax⟩
  · cases hs
  · exact ⟨t, ht, sub_eq_iff_eq_add'.mp hMax⟩

theorem envelope_point (hs : s ∈ samples)
    (hBelow : ∀ t ∈ samples, t.quadratic mu s.point ≤ s.value) :
    envelope samples mu s.point = s.value := by
  apply le_antisymm
  · obtain ⟨t, ht, hEq⟩ := exists_quadratic_eq_envelope hs mu s.point
    exact hEq ▸ hBelow t ht
  · calc
      s.value = s.quadratic mu s.point := (s.quadratic_point mu).symm
      _ ≤ envelope samples mu s.point := quadratic_le_envelope hs s.point

theorem quadratic_zero (s : Sample E) (z : E) :
    s.quadratic 0 z = s.value + inner ℝ s.gradient (z - s.point) := by
  rw [quadratic, zero_div, zero_mul, add_zero]

theorem isSubgradientAt_envelope (hmu : 0 ≤ mu) (hs : s ∈ samples)
    (hPoint : envelope samples mu s.point = s.value) :
    IsSubgradientAt (envelope samples mu) s.gradient s.point := by
  intro z
  calc
    envelope samples mu s.point + inner ℝ s.gradient (z - s.point) = s.quadratic 0 z := by
      rw [hPoint, quadratic_zero]
    _ ≤ s.quadratic mu z := s.quadratic_mono hmu z
    _ ≤ envelope samples mu z := quadratic_le_envelope hs z

/-- Without curvature the envelope is as steep as the steepest gradient. -/
theorem abs_envelope_sub_le {m : ℝ} (hm : 0 ≤ m) (hBound : ∀ s ∈ samples, ‖s.gradient‖ ≤ m)
    (x y : E) : |envelope samples 0 x - envelope samples 0 y| ≤ m * ‖x - y‖ := by
  have hDifference (x y : E) :
      envelope samples 0 x - envelope samples 0 y ≤ m * ‖x - y‖ := by
    rcases affineMax_eq_zero_or samples 0 x with ⟨-, hZero⟩ | ⟨s, hs, hMax⟩
    · simp only [envelope, hZero, Pi.zero_apply, zero_div, zero_mul, sub_self, add_zero]
      positivity
    · have hx : s.quadratic 0 x = envelope samples 0 x := sub_eq_iff_eq_add'.mp hMax
      calc
        envelope samples 0 x - envelope samples 0 y ≤ s.quadratic 0 x - s.quadratic 0 y := by
          rw [hx]
          exact sub_le_sub_left (quadratic_le_envelope hs y) _
        _ = inner ℝ s.gradient (x - y) := by
          rw [quadratic_zero, quadratic_zero, add_sub_add_left_eq_sub, ← inner_sub_right,
            sub_sub_sub_cancel_right]
        _ ≤ ‖s.gradient‖ * ‖x - y‖ := real_inner_le_norm _ _
        _ ≤ m * ‖x - y‖ := by
          gcongr
          exact hBound s hs
  rw [abs_sub_le_iff]
  exact ⟨hDifference x y, norm_sub_rev x y ▸ hDifference y x⟩

end Sample

theorem IsSubgradientAt.norm_le {f : E → ℝ} {g x : E} {m : ℝ} (h : IsSubgradientAt f g x)
    (hm : 0 ≤ m) (hLipschitz : ∀ x y, |f x - f y| ≤ m * ‖x - y‖) : ‖g‖ ≤ m := by
  -- a step along the subgradient
  have hStep := h (x + g)
  have hBound := (le_abs_self _).trans (hLipschitz (x + g) x)
  rw [add_sub_cancel_left, real_inner_self_eq_norm_sq] at hStep
  rw [add_sub_cancel_left] at hBound
  rcases (norm_nonneg g).eq_or_lt with hZero | hPos
  · exact hZero ▸ hm
  · refine le_of_mul_le_mul_right ?_ hPos
    linarith

namespace FunctionClass

variable [CompleteSpace E] {c : FunctionClass ℝ} {mu : ℝ}

theorem HasModulus.quadratic_le (hClass : HasModulus c mu) {f : E → ℝ} (hf : c.Contains f)
    {s : Sample E} (hValue : f s.point = s.value)
    (hGradient : IsSubgradientAt f s.gradient s.point) (z : E) : s.quadratic mu z ≤ f z := by
  have hMinorant (z : E) : s.quadratic 0 z ≤ f z := by
    rw [s.quadratic_zero, ← hValue]
    exact hGradient z
  cases hClass with
  | convex | convexLipschitz => exact hMinorant z
  | stronglyConvex => exact Sample.quadratic_le_of_convexOn hf hValue hMinorant z

theorem HasModulus.contains_envelope (hClass : HasModulus c mu) (hc : c.Valid)
    {samples : List (Sample E)} (hAdmits : c.Admits samples) :
    c.Contains (Sample.envelope samples mu) := by
  have hRest : (fun x => Sample.envelope samples mu x - mu / 2 * ‖x‖ ^ 2) =
      Sample.affineMax samples mu :=
    funext fun x => add_sub_cancel_left _ _
  have hConvex := Sample.convexOn_affineMax samples mu
  rw [← hRest] at hConvex
  cases hClass with
  | convex => simpa [Contains] using hConvex
  | stronglyConvex => exact hConvex
  | convexLipschitz m =>
    refine ⟨by simpa using hConvex, Sample.abs_envelope_sub_le (le_of_lt hc) fun s hs => ?_⟩
    exact le_of_sq_le_sq (hAdmits.single m rfl s hs) (le_of_lt hc)

/-- The constraints of a class of convex functions are exact: they hold if and only if some member
passes through the triples, with their gradients among its subgradients there. -/
theorem interpolation_hold_iff_exists_member (hNonsmooth : c.isNonsmooth = true)
    (hc : c.validate = .ok ()) (r : Realization E) (triples : List (Triple ℝ)) :
    (∀ i ∈ c.interpolation triples, i.constraint.HoldsAt r.gram r.value) ↔
      ∃ f : E → ℝ, c.Contains f ∧ ∀ t ∈ triples, f (r.point t.point) = r.eval t.value ∧
        IsSubgradientAt f (r.point t.gradient) (r.point t.point) := by
  obtain ⟨mu, hClass⟩ := exists_hasModulus hNonsmooth
  have hValid := validate_eq_ok_iff.mp hc
  rw [interpolation_hold_iff_admits r hClass.isBuiltIn]
  constructor
  · intro hAdmits
    refine ⟨Sample.envelope (triples.map r.sample) mu, hClass.contains_envelope hValid hAdmits,
      fun t ht => ?_⟩
    have hMem : r.sample t ∈ triples.map r.sample := List.mem_map_of_mem ht
    have hPoint := Sample.envelope_point hMem fun s hs =>
      hClass.excess_nonpos_iff.mp (hAdmits.pair _ hMem s hs)
    have hGradient := Sample.isSubgradientAt_envelope (hClass.nonneg hValid) hMem hPoint
    exact ⟨hPoint, hGradient⟩
  · rintro ⟨f, hf, hTriples⟩
    constructor
    · simp only [List.forall_mem_map]
      intro tk hk tl hl
      obtain ⟨hValue, hGradient⟩ := hTriples tl hl
      rw [hClass.excess_nonpos_iff]
      exact (hClass.quadratic_le hf hValue hGradient _).trans_eq (hTriples tk hk).1
    · simp only [List.forall_mem_map]
      rintro m rfl t ht
      have hNorm := (hTriples t ht).2.norm_le (le_of_lt hValid) hf.2
      gcongr
      exact hNorm

/-- A convex function of slope at most one with equal values at minus one and one. -/
theorem interpolation_hold_iff_exists_member_opposite :
    (convexLipschitz (1 : ℝ)).validate = .ok () ∧ ∃ f : ℝ → ℝ, ConvexOn ℝ Set.univ f ∧
      (∀ x y, |f x - f y| ≤ 1 * ‖x - y‖) ∧ f (-1) = 1 ∧ IsSubgradientAt f (-1) (-1) ∧
      f 1 = 1 ∧ IsSubgradientAt f 1 1 := by
  have hc : (convexLipschitz (1 : ℝ)).validate = .ok () := validate_eq_ok_iff.mpr one_pos
  have hHold := (interpolation_hold_iff_admits (oppositePoints 1) rfl).mpr admits_oppositeTriples
  obtain ⟨f, ⟨hConvex, hLipschitz⟩, hTriples⟩ :=
    (interpolation_hold_iff_exists_member rfl hc (oppositePoints 1) oppositeTriples).mp hHold
  refine ⟨hc, f, hConvex, hLipschitz, ?_⟩
  simpa [oppositeTriples, oppositePoints, and_assoc] using hTriples

end FunctionClass

end PerformanceEstimation
