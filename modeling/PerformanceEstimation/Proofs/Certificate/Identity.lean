import Mathlib
import PerformanceEstimation.Certificate
import PerformanceEstimation.Proofs.Algebra.Expressions
import PerformanceEstimation.Proofs.Packing.Matrices

/-!
# The identity of a certificate

The remainder is what is left of the metric, so every linear functional of it is known
(`Certificate.linear_remainder`). The check measures the coefficients of the identity which do not
cancel, and the signs (`Certificate.isValid_verify_iff`).
-/

set_option autoImplicit false

namespace PerformanceEstimation

theorem Expression.total_eq_sum_upperTriangle {e : Expression ℝ} {n : ℕ} (he : e.Canonical)
    (hBelow : e.GramBelow n) (gram : BasisPair → ℝ) :
    e.gram.total gram =
      ((upperTriangle n).map fun p => e.gramCoefficient p.row p.col * gram p).sum := by
  have hKeys : ∀ term ∈ e.gram, term.1 ∈ (upperTriangle n).toFinset := by
    intro term hTerm
    rw [List.mem_toFinset, mem_upperTriangle]
    exact ⟨he.upper term hTerm, (hBelow term hTerm).2⟩
  rw [Terms.total_eq_sum he.gram hKeys, List.sum_toFinset _ (nodup_upperTriangle n)]
  refine congrArg List.sum (List.map_congr_left fun p hp => ?_)
  rw [gramCoefficient, BasisPair.of_row_col (mem_upperTriangle.mp hp).1]

theorem CertificateCheck.atLeast_min? {b : ℝ} {as : List ℝ} :
    atLeast b as.min? = true ↔ ∀ a ∈ as, b ≤ a := by
  cases hMin : as.min? with
  | none =>
    rw [List.min?_eq_none_iff] at hMin
    simp [hMin, atLeast]
  | some m =>
    rw [← List.le_min?_iff hMin]
    simp [atLeast]

namespace Certificate

/-- Every expression is in the form that the operations build, and uses Gram entries of the matrix
only; the packed matrix has some order. -/
structure WellFormed (c : Certificate ℝ) : Prop where
  metric : c.metric.Canonical ∧ c.metric.GramBelow c.order
  entries : ∀ e ∈ c.entries,
    e.constraint.lhs.Canonical ∧ e.constraint.lhs.GramBelow c.order
  psd : ∃ d, c.psd.length = triangular d

variable {c : Certificate ℝ}

theorem WellFormed.remainder (hc : c.WellFormed) :
    c.remainder.Canonical ∧ c.remainder.GramBelow c.order := by
  refine List.foldlRecOn
    (motive := fun rest : Expression ℝ => rest.Canonical ∧ rest.GramBelow c.order) _ _
    ⟨hc.metric.1.subConst _, hc.metric.2⟩ ?_
  rintro rest ⟨hRest, hBelow⟩ e he
  obtain ⟨hEntry, hEntryBelow⟩ := hc.entries e he
  exact ⟨hRest.axpy _ hEntry, hBelow.axpy _ hEntry hEntryBelow⟩

theorem remainder_values_mem (hc : c.WellFormed) {support : ValueIndex → Prop}
    (hMetric : ∀ term ∈ c.metric.values, support term.1)
    (hEntries : ∀ e ∈ c.entries, ∀ term ∈ e.constraint.lhs.values, support term.1) :
    ∀ term ∈ c.remainder.values, support term.1 := by
  refine List.foldlRecOn (motive := fun rest : Expression ℝ =>
    ∀ term ∈ rest.values, support term.1) _ _ hMetric ?_
  intro rest hRest e he term hTerm
  rcases Terms.key_mem_of_mem_axpy (hc.entries e he).1.values hTerm with
    ⟨old, hOld, hKey⟩ | ⟨new, hNew, hKey⟩
  · exact hKey ▸ hRest old hOld
  · exact hKey ▸ hEntries e he new hNew

theorem linear_remainder (hc : c.WellFormed) {L : Expression ℝ → ℝ}
    (hL : ∀ (e x : Expression ℝ) (a : ℝ), e.Canonical → x.Canonical →
      L (e.axpy a x) = L e + a * L x) :
    L c.remainder = L (c.metric.subConst c.bound) -
      (c.entries.map fun e => e.multiplier * L e.constraint.lhs).sum := by
  have hLoop : ∀ (entries : List (CertificateEntry ℝ)) (rest : Expression ℝ),
      (∀ e ∈ entries, e.constraint.lhs.Canonical) → rest.Canonical →
      L (entries.foldl (fun rest e => rest.axpy (-e.multiplier) e.constraint.lhs) rest) =
        L rest - (entries.map fun e => e.multiplier * L e.constraint.lhs).sum := by
    intro entries
    induction entries with
    | nil => simp
    | cons e entries ih =>
      intro rest hEntries hRest
      obtain ⟨hHead, hTail⟩ := List.forall_mem_cons.mp hEntries
      rw [List.foldl_cons, ih _ hTail (hRest.axpy _ hHead), hL _ _ _ hRest hHead, List.map_cons,
        List.sum_cons]
      ring
  exact hLoop c.entries _ (fun e he => (hc.entries e he).1) (hc.metric.1.subConst _)

theorem gramWeight_eq (c : Certificate ℝ) (pair : BasisPair) :
    c.gramWeight pair =
      if pair.isDiagonal then c.psd.getD pair.slot 0 else 2 * c.psd.getD pair.slot 0 := by
  unfold gramWeight
  rw [zero_real]

variable {minEigenvalue : List ℝ → Option ℝ}

/-- The residual bounds the constant, and every coefficient with the weight of its Gram entry. -/
theorem residual_verify_le_iff {b : ℝ} :
    (c.verify minEigenvalue).residual ≤ b ↔ |c.remainder.constant| ≤ b ∧
      (∀ term ∈ c.remainder.values, |term.2| ≤ b) ∧
      ∀ p ∈ upperTriangle c.order,
        |c.remainder.gramCoefficient p.row p.col + c.gramWeight p| ≤ b := by
  rw [verify, foldl_max_abs_le_iff]
  simp only [abs_real, defects, List.forall_mem_append, List.forall_mem_map]

theorem minMultiplier_verify :
    (c.verify minEigenvalue).minMultiplier =
      ((c.entries.filter (·.constraint.sense = .lessEq)).map (·.multiplier)).min? :=
  minimum?_real _

theorem isValid_verify_iff {tol : ℝ} :
    (c.verify minEigenvalue).isValid tol = true ↔
      (c.verify minEigenvalue).residual ≤ tol ∧
      (∀ e ∈ c.entries, e.constraint.sense = .lessEq → -tol ≤ e.multiplier) ∧
      CertificateCheck.atLeast (-tol) (minEigenvalue c.psd) = true := by
  have hMultipliers : (∀ a ∈ (c.entries.filter (·.constraint.sense = .lessEq)).map (·.multiplier),
      -tol ≤ a) ↔ ∀ e ∈ c.entries, e.constraint.sense = .lessEq → -tol ≤ e.multiplier := by
    simp only [List.forall_mem_map, List.mem_filter, decide_eq_true_eq, and_imp]
  rw [CertificateCheck.isValid, minMultiplier_verify, Bool.and_eq_true, Bool.and_eq_true,
    CertificateCheck.atLeast_min?, hMultipliers, decide_eq_true_eq, and_assoc]
  rfl

end Certificate

end PerformanceEstimation
