import Mathlib
import PerformanceEstimation.Proofs.Certificate.Identity

/-!
# Soundness of the check

A valid certificate bounds its metric at all feasible unknowns, up to the tolerance times the size
of the unknowns. The argument is weak duality: where the identity of the certificate is evaluated,
the weighted constraints and the product with the positive semidefinite matrix have a sign.
-/

set_option autoImplicit false

namespace PerformanceEstimation

/-- The function gives the smallest eigenvalue of a packed matrix, and nothing for the empty one. -/
def ExactSmallestEigenvalue (minEigenvalue : List ℝ → Option ℝ) : Prop :=
  ∀ d packed, packed.length = triangular d →
    (minEigenvalue packed = none ↔ d = 0) ∧
      ∀ e, minEigenvalue packed = some e → IsLeast (spectrum ℝ (ofPacked d packed)) e

theorem ExactSmallestEigenvalue.le_of_mem_spectrum {minEigenvalue : List ℝ → Option ℝ}
    (hExact : ExactSmallestEigenvalue minEigenvalue) {d : ℕ} {packed : List ℝ}
    (hLength : packed.length = triangular d) {b : ℝ}
    (h : CertificateCheck.atLeast b (minEigenvalue packed) = true) :
    ∀ x ∈ spectrum ℝ (ofPacked d packed), b ≤ x := by
  intro x hx
  obtain ⟨hNone, hSome⟩ := hExact d packed hLength
  cases hMin : minEigenvalue packed with
  | none =>
    obtain rfl := hNone.mp hMin
    rw [spectrum.of_subsingleton] at hx
    cases hx
  | some e =>
    rw [hMin] at h
    exact (of_decide_eq_true h).trans ((hSome e hMin).2 hx)

noncomputable def smallestEigenvalue (packed : List ℝ) : Option ℝ := do
  let d ← orderOfPacked? packed.length
  if d = 0 then none else some (sInf (spectrum ℝ (ofPacked d packed)))

theorem smallestEigenvalue_exact : ExactSmallestEigenvalue smallestEigenvalue := by
  intro d packed hLength
  rw [smallestEigenvalue, hLength, orderOfPacked?_triangular, Option.bind_eq_bind, Option.bind_some]
  by_cases hd : d = 0
  · simp [hd]
  · refine ⟨by simp [hd], ?_⟩
    intro e he
    rw [if_neg hd] at he
    cases he
    have : Nonempty (Fin d) := ⟨⟨0, Nat.pos_of_ne_zero hd⟩⟩
    have hRange := (ofPacked_isHermitian d packed).spectrum_real_eq_range_eigenvalues
    have hFinite : (spectrum ℝ (ofPacked d packed)).Finite := hRange ▸ Set.finite_range _
    have hNonempty : (spectrum ℝ (ofPacked d packed)).Nonempty := hRange ▸ Set.range_nonempty _
    exact ⟨hNonempty.csInf_mem hFinite, fun x hx => csInf_le hFinite.bddBelow hx⟩

namespace Certificate

variable {c : Certificate ℝ}

def valueSupport (c : Certificate ℝ) : Finset ValueIndex :=
  ((c.metric.values ++ c.entries.flatMap (·.constraint.lhs.values)).map (·.1)).toFinset

theorem mem_valueSupport {k : ValueIndex} :
    k ∈ c.valueSupport ↔ (∃ term ∈ c.metric.values, term.1 = k) ∨
      ∃ e ∈ c.entries, ∃ term ∈ e.constraint.lhs.values, term.1 = k := by
  simp only [valueSupport, List.mem_toFinset, List.mem_map, List.mem_append, List.mem_flatMap]
  constructor
  · rintro ⟨term, hMetric | ⟨e, he, hTerm⟩, rfl⟩
    · exact .inl ⟨term, hMetric, rfl⟩
    · exact .inr ⟨e, he, term, hTerm, rfl⟩
  · rintro (⟨term, hMetric, rfl⟩ | ⟨e, he, term, hTerm, rfl⟩)
    · exact ⟨term, .inl hMetric, rfl⟩
    · exact ⟨term, .inr ⟨e, he, hTerm⟩, rfl⟩

theorem remainder_values_subset (hc : c.WellFormed) :
    ∀ term ∈ c.remainder.values, term.1 ∈ c.valueSupport :=
  remainder_values_mem hc (fun term hTerm => mem_valueSupport.mpr (.inl ⟨term, hTerm, rfl⟩))
    fun e he term hTerm => mem_valueSupport.mpr (.inr ⟨e, he, term, hTerm, rfl⟩)

/-- The product with a positive semidefinite matrix is at least what the spectrum allows. -/
theorem neg_mul_trace_le_sum_gramWeight {d : ℕ} (hLength : c.psd.length = triangular d)
    (hFits : c.psd.length ≤ triangular c.order) {tol : ℝ} (hTol : 0 ≤ tol)
    (hSpectrum : ∀ x ∈ spectrum ℝ (ofPacked d c.psd), -tol ≤ x)
    {G : SquareMatrix c.order} (hG : G.PosSemidef) :
    -(tol * G.trace) ≤ ((upperTriangle c.order).map fun p => c.gramWeight p * entryAt G p).sum := by
  have hOrder : d ≤ c.order := triangular_strictMono.le_iff_le.mp (hLength ▸ hFits)
  have hBeyond : ∀ p : BasisPair, p.row ≤ p.col → d ≤ p.col.pos →
      c.gramWeight p * entryAt G p = 0 := by
    intro p hp hd
    have hSlot : c.psd.length ≤ p.slot := by
      rw [hLength, ← not_lt, BasisPair.slot_lt_triangular_iff hp]
      omega
    rw [gramWeight_eq, List.getD_eq_default _ _ hSlot]
    simp
  have hBlock : (leadingBlock G hOrder).PosSemidef := hG.submatrix _
  calc -(tol * G.trace)
    _ ≤ -(tol * (leadingBlock G hOrder).trace) :=
        neg_le_neg (mul_le_mul_of_nonneg_left (trace_leadingBlock_le hG hOrder) hTol)
    _ ≤ (ofPacked d c.psd * leadingBlock G hOrder).trace :=
        neg_mul_trace_le (ofPacked_isHermitian d c.psd) hSpectrum hBlock
    _ = ((upperTriangle d).map fun p => c.gramWeight p * entryAt G p).sum := by
        rw [← sum_doubled_eq_trace c.psd (isSymm_of_posSemidef hBlock)]
        refine congrArg List.sum (List.map_congr_left fun p hp => ?_)
        rw [entryAt_leadingBlock G hOrder hp, gramWeight_eq]
    _ = ((upperTriangle c.order).map fun p => c.gramWeight p * entryAt G p).sum :=
        (sum_upperTriangle_of_le hOrder hBeyond).symm

variable {tol : ℝ} {minEigenvalue : List ℝ → Option ℝ}

/-- What does not cancel is small in the size of the unknowns. -/
theorem remainder_add_sum_gramWeight_le (hc : c.WellFormed) (hTol : 0 ≤ tol)
    (hResidual : (c.verify minEigenvalue).residual ≤ tol) (gram : BasisPair → ℝ)
    (value : ValueIndex → ℝ) :
    c.remainder.evalAt gram value +
        ((upperTriangle c.order).map fun p => c.gramWeight p * gram p).sum ≤
      tol * (1 + ∑ k ∈ c.valueSupport, |value k| +
        ((upperTriangle c.order).map fun p => |gram p|).sum) := by
  obtain ⟨hRemainder, hBelow⟩ := hc.remainder
  obtain ⟨hConstant, hValues, hGram⟩ := residual_verify_le_iff.mp hResidual
  have hValueSum : c.remainder.values.total value ≤ tol * ∑ k ∈ c.valueSupport, |value k| := by
    rw [Terms.total_eq_sum hRemainder.values (remainder_values_subset hc), Finset.mul_sum]
    refine Finset.sum_le_sum fun k _ => ?_
    calc c.remainder.values.coefficient k * value k
      _ ≤ |c.remainder.values.coefficient k * value k| := le_abs_self _
      _ = |c.remainder.values.coefficient k| * |value k| := abs_mul _ _
      _ ≤ tol * |value k| :=
          mul_le_mul_of_nonneg_right (Terms.abs_coefficient_le hTol hValues k) (abs_nonneg _)
  have hGramSum : c.remainder.gram.total gram +
      ((upperTriangle c.order).map fun p => c.gramWeight p * gram p).sum ≤
        tol * ((upperTriangle c.order).map fun p => |gram p|).sum := by
    rw [Expression.total_eq_sum_upperTriangle hRemainder hBelow, ← List.sum_map_add,
      ← List.sum_map_mul_left]
    refine List.sum_le_sum fun p hp => ?_
    calc c.remainder.gramCoefficient p.row p.col * gram p + c.gramWeight p * gram p
      _ = (c.remainder.gramCoefficient p.row p.col + c.gramWeight p) * gram p := by ring
      _ ≤ |(c.remainder.gramCoefficient p.row p.col + c.gramWeight p) * gram p| := le_abs_self _
      _ = |c.remainder.gramCoefficient p.row p.col + c.gramWeight p| * |gram p| := abs_mul _ _
      _ ≤ tol * |gram p| := mul_le_mul_of_nonneg_right (hGram p hp) (abs_nonneg _)
  have hConstant' := (le_abs_self _).trans hConstant
  rw [Expression.evalAt_eq_total]
  linarith

/-- Weighted constraints do not exceed zero, up to the tolerance for a multiplier that is negative
within it. -/
theorem sum_multiplier_mul_le
    (hMultiplier : ∀ e ∈ c.entries, e.constraint.sense = .lessEq → -tol ≤ e.multiplier)
    {gram : BasisPair → ℝ} {value : ValueIndex → ℝ}
    (hFeasible : ∀ e ∈ c.entries, e.constraint.HoldsAt gram value) :
    (c.entries.map fun e => e.multiplier * e.constraint.lhs.evalAt gram value).sum ≤
      tol * ((c.entries.filter (·.constraint.sense = .lessEq)).map fun e =>
        |e.constraint.lhs.evalAt gram value|).sum := by
  revert hMultiplier hFeasible
  induction c.entries with
  | nil => simp
  | cons e entries ih =>
    intro hMultiplier hFeasible
    obtain ⟨hHead, hTail⟩ := List.forall_mem_cons.mp hMultiplier
    obtain ⟨hHolds, hRest⟩ := List.forall_mem_cons.mp hFeasible
    have hSum := ih hTail hRest
    cases hSense : e.constraint.sense with
    | lessEq =>
      rw [Constraint.holdsAt_lessEq _ _ hSense] at hHolds
      have hTerm : e.multiplier * e.constraint.lhs.evalAt gram value ≤
          tol * |e.constraint.lhs.evalAt gram value| := by
        rw [abs_of_nonpos hHolds]
        nlinarith [hHead hSense]
      rw [List.filter_cons_of_pos (by simpa using hSense), List.map_cons, List.map_cons,
        List.sum_cons, List.sum_cons, mul_add]
      exact add_le_add hTerm hSum
    | equal =>
      rw [Constraint.holdsAt_equal _ _ hSense] at hHolds
      rw [List.filter_cons_of_neg (by simp [hSense]), List.map_cons, List.sum_cons, hHolds,
        mul_zero, zero_add]
      exact hSum

/-- A certificate that passes the check bounds its metric at all feasible unknowns. Multipliers of
equalities may have any sign. -/
theorem metric_le_of_isValid (hExact : ExactSmallestEigenvalue minEigenvalue) (hc : c.WellFormed)
    {check : CertificateCheck ℝ} (hCheck : c.verify? minEigenvalue = some check) (hTol : 0 ≤ tol)
    (hValid : check.isValid tol = true) {G : SquareMatrix c.order} (hG : G.PosSemidef)
    {F : ValueIndex → ℝ} (hFeasible : ∀ e ∈ c.entries, e.constraint.HoldsAt (entryAt G) F) :
    check.bound = c.bound ∧
      c.metric.evalAt (entryAt G) F ≤ c.bound + tol * (1 + ∑ k ∈ c.valueSupport, |F k| +
        ((upperTriangle c.order).map fun p => |entryAt G p|).sum +
        ((c.entries.filter (·.constraint.sense = .lessEq)).map fun e =>
          |e.constraint.lhs.evalAt (entryAt G) F|).sum + G.trace) ∧
      (tol = 0 → c.metric.evalAt (entryAt G) F ≤ c.bound) := by
  obtain ⟨hFits, rfl⟩ : c.psd.length ≤ triangular c.order ∧ c.verify minEigenvalue = check := by
    simpa [verify?] using hCheck
  obtain ⟨hResidual, hMultiplier, hEigenvalue⟩ := isValid_verify_iff.mp hValid
  obtain ⟨d, hLength⟩ := hc.psd
  have hIdentity := linear_remainder hc (L := Expression.evalAt (entryAt G) F)
    fun e x a _ _ => Expression.evalAt_axpy _ _ e a x
  have hCancel := remainder_add_sum_gramWeight_le hc hTol hResidual (entryAt G) F
  have hPsd := neg_mul_trace_le_sum_gramWeight hLength hFits hTol
    (hExact.le_of_mem_spectrum hLength hEigenvalue) hG
  have hConstraints := sum_multiplier_mul_le hMultiplier hFeasible
  rw [Expression.evalAt_subConst] at hIdentity
  have hBound : c.metric.evalAt (entryAt G) F ≤ c.bound + tol * (1 + ∑ k ∈ c.valueSupport, |F k| +
      ((upperTriangle c.order).map fun p => |entryAt G p|).sum +
      ((c.entries.filter (·.constraint.sense = .lessEq)).map fun e =>
        |e.constraint.lhs.evalAt (entryAt G) F|).sum + G.trace) := by
    linarith
  refine ⟨rfl, hBound, ?_⟩
  rintro rfl
  linarith

/-- A bound on an inner product, by the square of a difference and an equality whose multiplier is
negative. -/
noncomputable def squareCertificate : Certificate ℝ where
  metric := ⟨[], [(⟨⟨0⟩, ⟨1⟩⟩, 1)], 0⟩
  entries := [⟨⟨1⟩, .initialCondition, ⟨⟨[(⟨0⟩, 1)], [], 0⟩, .equal⟩, -1⟩,
    ⟨⟨0⟩, .initialCondition,
      ⟨⟨[(⟨0⟩, 1)], [(⟨⟨0⟩, ⟨0⟩⟩, 1), (⟨⟨0⟩, ⟨1⟩⟩, -1), (⟨⟨1⟩, ⟨1⟩⟩, 1)], -1⟩, .lessEq⟩, 1⟩]
  order := 2
  psd := [1, -1, 1]
  bound := 1

theorem squareCertificate_wellFormed : squareCertificate.WellFormed := by
  refine ⟨⟨⟨?_, ?_, ?_⟩, ?_⟩, ?_, 2, rfl⟩
  · simp [squareCertificate, Terms.canonical_nil]
  · simp [squareCertificate, Terms.canonical_cons_iff, Terms.canonical_nil]
  · simp [squareCertificate, BasisIndex.le_iff]
  · simp [squareCertificate, Expression.GramBelow]
  · intro e he
    simp only [squareCertificate, List.mem_cons, List.not_mem_nil, or_false] at he
    rcases he with rfl | rfl <;> refine ⟨⟨?_, ?_, ?_⟩, ?_⟩ <;>
      simp [Terms.canonical_cons_iff, Terms.canonical_nil, BasisIndex.le_iff,
        BasisIndex.lt_iff, BasisPair.lt_iff, Expression.GramBelow, squareCertificate]

theorem squareCertificate_isValid :
    (squareCertificate.verify smallestEigenvalue).isValid 0 = true := by
  rw [isValid_verify_iff]
  have hRest : squareCertificate.remainder = ⟨[], [(⟨⟨0⟩, ⟨0⟩⟩, -1), (⟨⟨0⟩, ⟨1⟩⟩, 2),
      (⟨⟨1⟩, ⟨1⟩⟩, -1)], 0⟩ := by
    simp [remainder, squareCertificate, Expression.subConst, Expression.axpy, Terms.axpy,
      Terms.addThen, Terms.consNonzero, BasisPair.lt_iff, BasisIndex.lt_iff, ValueIndex.lt_iff]
    norm_num
  refine ⟨?_, ?_, ?_⟩
  · have hTriangle : upperTriangle 2 = [⟨⟨0⟩, ⟨0⟩⟩, ⟨⟨0⟩, ⟨1⟩⟩, ⟨⟨1⟩, ⟨1⟩⟩] := rfl
    rw [residual_verify_le_iff, hRest]
    refine ⟨by simp, by simp, ?_⟩
    change ∀ p ∈ upperTriangle 2, _
    rw [hTriangle]
    norm_num [gramWeight_eq, Expression.gramCoefficient, Terms.coefficient_cons, BasisPair.of,
      BasisIndex.le_iff, BasisPair.isDiagonal, BasisPair.slot, triangular, squareCertificate]
  · simp [squareCertificate]
  · let v (i : Fin 2) : ℝ := if i = 0 then 1 else -1
    have hSquare : ofPacked 2 [1, -1, 1] = Matrix.vecMulVec v (star v) := by
      ext i j
      fin_cases i <;> fin_cases j <;>
        simp [ofPacked, v, Matrix.vecMulVec, gramSlot, BasisPair.of, BasisIndex.le_iff,
          BasisPair.slot, triangular]
    have hPosSemidef : (ofPacked 2 [1, -1, 1]).PosSemidef := by
      rw [hSquare]
      exact Matrix.posSemidef_vecMulVec_self_star _
    obtain ⟨hNone, hSome⟩ := smallestEigenvalue_exact 2 [1, -1, 1] rfl
    obtain ⟨e, he⟩ := Option.ne_none_iff_exists'.mp fun h => absurd (hNone.mp h) (by decide)
    change CertificateCheck.atLeast (-0) (smallestEigenvalue [1, -1, 1]) = true
    rw [he, CertificateCheck.atLeast, decide_eq_true_eq, neg_zero]
    exact (Matrix.posSemidef_iff_isHermitian_and_spectrum_nonneg.mp hPosSemidef).2 (hSome e he).1

theorem metric_le_of_isValid_square :
    ∃ G : SquareMatrix squareCertificate.order, ∃ F : ValueIndex → ℝ,
      (∀ e ∈ squareCertificate.entries, e.constraint.HoldsAt (entryAt G) F) ∧
        squareCertificate.metric.evalAt (entryAt G) F = 1 ∧
        squareCertificate.metric.evalAt (entryAt G) F ≤ squareCertificate.bound := by
  let G : SquareMatrix 2 := Matrix.vecMulVec (fun _ => 1) (star fun _ => 1)
  have hG : G.PosSemidef := Matrix.posSemidef_vecMulVec_self_star _
  have hFeasible : ∀ e ∈ squareCertificate.entries,
      e.constraint.HoldsAt (entryAt (d := 2) G) fun _ => 0 := by
    simp [squareCertificate, Constraint.HoldsAt, Expression.evalAt, entryAt, G, Matrix.vecMulVec]
  have hCheck : squareCertificate.verify? smallestEigenvalue =
      some (squareCertificate.verify smallestEigenvalue) := rfl
  obtain ⟨-, -, hBound⟩ := metric_le_of_isValid smallestEigenvalue_exact
    squareCertificate_wellFormed hCheck le_rfl squareCertificate_isValid (G := G) hG hFeasible
  refine ⟨G, fun _ => 0, hFeasible, ?_, hBound rfl⟩
  simp [squareCertificate, Expression.evalAt, entryAt, G, Matrix.vecMulVec]

end Certificate

end PerformanceEstimation
