import Mathlib
import PerformanceEstimation.Proofs.Classes.Quadratics

/-!
# Inclusions between classes

`Narrower c d` lists the inclusions between built-in classes: those that forget a property, and
those that only relax a parameter. Each is an implication between the inequalities of the two
classes on a pair of samples (`Narrower.excess_nonpos`), so what satisfies the constraints of the
narrower class satisfies those of the wider one.
-/

set_option autoImplicit false

namespace PerformanceEstimation.FunctionClass

variable {E : Type*} [NormedAddCommGroup E] [InnerProductSpace ℝ E]

/-- Every member of the first class is one of the second. -/
inductive Narrower : FunctionClass ℝ → FunctionClass ℝ → Prop
  | smoothStronglyConvex_smoothConvex (mu l : ℝ) :
      Narrower (smoothStronglyConvex mu l) (smoothConvex l)
  | smoothStronglyConvex_stronglyConvex (mu l : ℝ) :
      Narrower (smoothStronglyConvex mu l) (stronglyConvex mu)
  | smoothConvex_smooth (l : ℝ) : Narrower (smoothConvex l) (smooth l)
  | smoothConvex_convex (l : ℝ) : Narrower (smoothConvex l) convex
  | stronglyConvex_convex (mu : ℝ) : Narrower (stronglyConvex mu) convex
  | convexLipschitz_convex (m : ℝ) : Narrower (convexLipschitz m) convex
  | cocoercive_monotone (beta : ℝ) : Narrower (cocoercive beta) monotone
  | cocoercive_lipschitz (beta : ℝ) : Narrower (cocoercive beta) (lipschitz (1 / beta))
  | stronglyMonotone_monotone (mu : ℝ) : Narrower (stronglyMonotone mu) monotone
  | stronglyConvex {mu mu' : ℝ} (h : mu' ≤ mu) :
      Narrower (stronglyConvex mu) (stronglyConvex mu')
  | convexLipschitz {m m' : ℝ} (h : m ≤ m') : Narrower (convexLipschitz m) (convexLipschitz m')
  | smooth {l l' : ℝ} (h : l ≤ l') : Narrower (smooth l) (smooth l')
  | smoothConvex {l l' : ℝ} (h : l ≤ l') : Narrower (smoothConvex l) (smoothConvex l')
  | smoothStronglyConvex {mu mu' l l' : ℝ} (hmu : mu' ≤ mu) (hl : l ≤ l') :
      Narrower (smoothStronglyConvex mu l) (smoothStronglyConvex mu' l')
  | stronglyMonotone {mu mu' : ℝ} (h : mu' ≤ mu) :
      Narrower (stronglyMonotone mu) (stronglyMonotone mu')
  | lipschitz {l l' : ℝ} (h : l ≤ l') : Narrower (lipschitz l) (lipschitz l')
  | cocoercive {beta beta' : ℝ} (h : beta' ≤ beta) :
      Narrower (cocoercive beta) (cocoercive beta')

section Pairs

variable {c d : FunctionClass ℝ} {s t : Sample E}

theorem HasCurvature.excess_nonpos_of_le {mu mu' l l' : ℝ} (hc : HasCurvature c mu l)
    (hd : HasCurvature d mu' l') (hcValid : c.Valid) (hdValid : d.Valid) (hmu : mu' ≤ mu)
    (hl : l ≤ l') (h : c.excess s t ≤ 0) : d.excess s t ≤ 0 := by
  rw [hd.excess_nonpos_iff hdValid]
  intro z
  calc
    t.quadratic mu' z ≤ t.quadratic mu z := t.quadratic_mono hmu z
    _ ≤ s.quadratic l z := (hc.excess_nonpos_iff hcValid).mp h z
    _ ≤ s.quadratic l' z := s.quadratic_mono hl z

theorem HasCurvature.quadratic_le_value {mu l : ℝ} (hc : HasCurvature c mu l) (hValid : c.Valid)
    (h : c.excess s t ≤ 0) : t.quadratic mu s.point ≤ s.value := by
  have hPoint := (hc.excess_nonpos_iff hValid).mp h s.point
  rwa [s.quadratic_point] at hPoint

theorem excess_stronglyConvex_mono {mu mu' : ℝ} (h : mu' ≤ mu) :
    (stronglyConvex mu').excess s t ≤ (stronglyConvex mu).excess s t := by
  rw [excess_stronglyConvex, excess_stronglyConvex]
  exact sub_le_sub_right (t.quadratic_mono h s.point) s.value

theorem excess_stronglyMonotone_mono {mu mu' : ℝ} (h : mu' ≤ mu) :
    (stronglyMonotone mu').excess s t ≤ (stronglyMonotone mu).excess s t := by
  simp only [excess]
  gcongr

theorem excess_cocoercive_mono {beta beta' : ℝ} (h : beta' ≤ beta) :
    (cocoercive beta').excess s t ≤ (cocoercive beta).excess s t := by
  simp only [excess]
  gcongr

theorem excess_lipschitz_antitone {l l' : ℝ} (hl : 0 ≤ l) (h : l ≤ l') :
    (lipschitz l').excess s t ≤ (lipschitz l).excess s t := by
  simp only [excess]
  gcongr

theorem excess_monotone_eq_stronglyMonotone :
    monotone.excess s t = (stronglyMonotone 0).excess s t := by
  simp only [excess, zero_mul, zero_sub]

theorem excess_monotone_eq_cocoercive : monotone.excess s t = (cocoercive 0).excess s t := by
  simp only [excess, zero_mul, zero_sub]

theorem excess_lipschitz_of_cocoercive {beta : ℝ} (hbeta : 0 < beta)
    (h : (cocoercive beta).excess s t ≤ 0) : (lipschitz (1 / beta)).excess s t ≤ 0 := by
  simp only [excess, sub_nonpos] at h ⊢
  generalize s.point - t.point = d at h ⊢
  generalize s.gradient - t.gradient = e at h ⊢
  -- by the inequality of Cauchy and Schwarz, then divided by the norm of the gradients
  have hBound : beta * ‖e‖ ^ 2 ≤ ‖e‖ * ‖d‖ := h.trans (real_inner_le_norm e d)
  have hNorm : ‖e‖ ≤ 1 / beta * ‖d‖ := by
    rcases (norm_nonneg e).eq_or_lt with hZero | hPos
    · rw [← hZero]
      positivity
    · have hCancel : beta * ‖e‖ ≤ ‖d‖ :=
        le_of_mul_le_mul_left (by linarith [hBound]) hPos
      rw [one_div, inv_mul_eq_div, le_div_iff₀ hbeta]
      linarith
  calc
    ‖e‖ ^ 2 ≤ (1 / beta * ‖d‖) ^ 2 := by gcongr
    _ = (1 / beta) ^ 2 * ‖d‖ ^ 2 := mul_pow _ _ 2

theorem Narrower.excess_nonpos (h : Narrower c d) (hc : c.Valid) (hd : d.Valid)
    (hExcess : c.excess s t ≤ 0) : d.excess s t ≤ 0 := by
  cases h with
  | smoothStronglyConvex_smoothConvex mu l =>
    exact (HasCurvature.smoothStronglyConvex mu l).excess_nonpos_of_le (.smoothConvex l) hc hd
      hc.1 le_rfl hExcess
  | smoothStronglyConvex_stronglyConvex mu l =>
    rw [excess_stronglyConvex]
    exact sub_nonpos.mpr ((HasCurvature.smoothStronglyConvex mu l).quadratic_le_value hc hExcess)
  | smoothConvex_smooth l =>
    exact (HasCurvature.smoothConvex l).excess_nonpos_of_le (.smooth l) hc hd
      (neg_nonpos.mpr hc.le) le_rfl hExcess
  | smoothConvex_convex l =>
    rw [excess_convex]
    exact sub_nonpos.mpr ((HasCurvature.smoothConvex l).quadratic_le_value hc hExcess)
  | stronglyConvex_convex mu =>
    rw [excess_convex, ← excess_stronglyConvex]
    exact (excess_stronglyConvex_mono hc.le).trans hExcess
  | convexLipschitz_convex m => exact hExcess
  | cocoercive_monotone beta =>
    rw [excess_monotone_eq_cocoercive]
    exact (excess_cocoercive_mono hc.le).trans hExcess
  | cocoercive_lipschitz beta => exact excess_lipschitz_of_cocoercive hc hExcess
  | stronglyMonotone_monotone mu =>
    rw [excess_monotone_eq_stronglyMonotone]
    exact (excess_stronglyMonotone_mono hc.le).trans hExcess
  | stronglyConvex h => exact (excess_stronglyConvex_mono h).trans hExcess
  | convexLipschitz h => exact hExcess
  | smooth h =>
    exact (HasCurvature.smooth _).excess_nonpos_of_le (.smooth _) hc hd (neg_le_neg h) h hExcess
  | smoothConvex h =>
    exact (HasCurvature.smoothConvex _).excess_nonpos_of_le (.smoothConvex _) hc hd le_rfl h hExcess
  | smoothStronglyConvex hmu hl =>
    exact (HasCurvature.smoothStronglyConvex _ _).excess_nonpos_of_le (.smoothStronglyConvex _ _)
      hc hd hmu hl hExcess
  | stronglyMonotone h => exact (excess_stronglyMonotone_mono h).trans hExcess
  | lipschitz h => exact (excess_lipschitz_antitone hc.le h).trans hExcess
  | cocoercive h => exact (excess_cocoercive_mono h).trans hExcess

end Pairs

section Samples

variable {c d : FunctionClass ℝ}

theorem Narrower.isBuiltIn (h : Narrower c d) : c.isBuiltIn = true ∧ d.isBuiltIn = true := by
  cases h <;> exact ⟨rfl, rfl⟩

theorem Narrower.admits (h : Narrower c d) (hc : c.Valid) (hd : d.Valid)
    {samples : List (Sample E)} (hAdmits : c.Admits samples) : d.Admits samples := by
  constructor
  · intro s hs t ht
    exact h.excess_nonpos hc hd (hAdmits.pair s hs t ht)
  · rintro m' rfl s hs
    -- only the relaxed bound leads to a class with a bound
    cases h with
    | @convexLipschitz m _ hm =>
      have hPos : 0 < m := hc
      calc
        ‖s.gradient‖ ^ 2 ≤ m ^ 2 := hAdmits.single m rfl s hs
        _ ≤ m' ^ 2 := by gcongr

/-- What satisfies the constraints of a class satisfies those of a wider one. -/
theorem interpolation_hold_of_narrower (h : Narrower c d) (hc : c.validate = .ok ())
    (hd : d.validate = .ok ()) (r : Realization E) (triples : List (Triple ℝ))
    (hHold : ∀ i ∈ c.interpolation triples, i.constraint.HoldsAt r.gram r.value) :
    ∀ i ∈ d.interpolation triples, i.constraint.HoldsAt r.gram r.value := by
  have hAdmits := (interpolation_hold_iff_admits r h.isBuiltIn.1).mp hHold
  exact (interpolation_hold_iff_admits r h.isBuiltIn.2).mpr
    (h.admits (validate_eq_ok_iff.mp hc) (validate_eq_ok_iff.mp hd) hAdmits)

/-- Half the square at minus one and one. -/
theorem interpolation_hold_of_narrower_opposite :
    (∀ i ∈ (smoothStronglyConvex (1 / 2) 2).interpolation oppositeTriples,
      i.constraint.HoldsAt (oppositePoints (1 / 2)).gram (oppositePoints (1 / 2)).value) ∧
    ∀ i ∈ (smoothConvex 2).interpolation oppositeTriples,
      i.constraint.HoldsAt (oppositePoints (1 / 2)).gram (oppositePoints (1 / 2)).value := by
  have hAdmits : (smoothStronglyConvex (1 / 2) 2).Admits
      (oppositeTriples.map (oppositePoints (1 / 2)).sample) := by
    rw [sample_oppositeTriples]
    exact ⟨by norm_num [excess], nofun⟩
  have hHold := (interpolation_hold_iff_admits (oppositePoints (1 / 2)) rfl).mpr hAdmits
  have hc : (smoothStronglyConvex (1 / 2 : ℝ) 2).validate = .ok () :=
    validate_eq_ok_iff.mpr ⟨by norm_num, by norm_num⟩
  have hd : (smoothConvex (2 : ℝ)).validate = .ok () := validate_eq_ok_iff.mpr two_pos
  exact ⟨hHold, interpolation_hold_of_narrower (.smoothStronglyConvex_smoothConvex (1 / 2) 2) hc hd
    (oppositePoints (1 / 2)) oppositeTriples hHold⟩

end Samples

end PerformanceEstimation.FunctionClass
