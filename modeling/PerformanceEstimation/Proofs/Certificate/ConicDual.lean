import Mathlib
import PerformanceEstimation.Proofs.Certificate.Identity
import PerformanceEstimation.Proofs.Program.Lowering
import PerformanceEstimation.Proofs.Program.Multipliers

/-!
# Certificates and conic duals

A vector over the rows and the packed matrix is a dual of the conic program and, read by the
program, a certificate. Both measure the same: the bound is the dual objective, and the residual of
the identity is the largest dual residual, where a column off the diagonal of the Gram matrix counts
with the square root of two.
-/

set_option autoImplicit false

namespace PerformanceEstimation

theorem max?_getD_le_iff {as : List ℝ} (h : ∀ a ∈ as, 0 ≤ a) {b : ℝ} :
    as.max?.getD 0 ≤ b ↔ 0 ≤ b ∧ ∀ a ∈ as, a ≤ b := by
  cases hMax : as.max? with
  | none =>
    rw [List.max?_eq_none_iff] at hMax
    simp [hMax]
  | some m =>
    rw [Option.getD_some, List.max?_le_iff hMax]
    constructor
    · intro hb
      have hMem : m ∈ as := List.max?_mem hMax
      exact ⟨(h m hMem).trans (hb m hMem), hb⟩
    · exact And.right

namespace Program

section Entries

variable {p : Program ℝ} {y : List ℝ} {d : Duals ℝ}

theorem psd_eq (hy : y.length = p.rows.length + p.packed) (hd : p.dualsOf? y = some d) :
    d.psd = unscale (y.drop p.rows.length) := by
  obtain ⟨-, -, hPsd⟩ := dualsOf?_eq_some_iff.mp hd
  rw [hPsd, List.take_of_length_le]
  simp [hy]

theorem sum_entries (hd : p.dualsOf? y = some d) (L : Expression ℝ → ℝ) :
    ((Certificate.extract p d.multipliers d.psd).entries.map fun e =>
        e.multiplier * L e.constraint.lhs).sum =
      ∑ i : Fin p.rows.length, y.getD i 0 * L p.rows[i].2.constraint.lhs := by
  rw [entries_extract hd, zero_real, List.mapIdx_eq_ofFn, List.map_ofFn, List.sum_ofFn]
  rfl

theorem bound_extract (hd : p.dualsOf? y = some d) :
    (Certificate.extract p d.multipliers d.psd).bound = p.metric.constant -
      ∑ i : Fin p.rows.length, y.getD i 0 * p.rows[i].2.constraint.lhs.constant := by
  rw [← sum_entries hd Expression.constant]
  exact foldl_sub_eq_sum
    (fun e : CertificateEntry ℝ => e.multiplier * e.constraint.lhs.constant) _ _

theorem wellFormed_extract (hp : p.WellFormed) (hd : p.dualsOf? y = some d) :
    (Certificate.extract p d.multipliers d.psd).WellFormed := by
  refine ⟨hp.metric, ?_, p.order, ?_⟩
  · intro e he
    rw [entries_extract hd, List.mem_mapIdx] at he
    obtain ⟨i, hi, rfl⟩ := he
    exact hp.row (List.getElem_mem hi)
  · exact length_psd hd

theorem minMultiplier_extract (hy : y.length = p.rows.length + p.packed)
    (hd : p.dualsOf? y = some d) (minEigenvalue : List ℝ → Option ℝ) :
    ((Certificate.extract p d.multipliers d.psd).verify minEigenvalue).minMultiplier =
      ((y.drop p.equalityCount).take p.inequalityCount).min? := by
  have hSplit : (Certificate.extract p d.multipliers d.psd).entries =
      ((p.store.active .equal).mapIdx fun i row =>
        ⟨row.1, row.2.origin, row.2.constraint, y.getD i 0⟩) ++
      (p.store.active .lessEq).mapIdx fun i row =>
        ⟨row.1, row.2.origin, row.2.constraint, y.getD (i + p.equalityCount) 0⟩ := by
    rw [entries_extract hd, zero_real, rows, List.mapIdx_append]
    rfl
  have hLength : p.equalityCount + p.inequalityCount ≤ y.length := by
    rw [hy, length_rows]
    exact Nat.le_add_right _ _
  rw [Certificate.minMultiplier_verify, hSplit, List.filter_append, List.filter_eq_nil_iff.mpr,
    List.nil_append, List.filter_eq_self.mpr, drop_take_eq_map_range hLength]
  · congr 1
    apply List.ext_getElem (by simp [inequalityCount])
    intro i hi hi'
    simp [add_comm]
  · intro e he
    obtain ⟨i, hi, rfl⟩ := List.mem_mapIdx.mp he
    simpa using (Store.mem_active_iff.mp (List.getElem_mem hi)).2.1
  · intro e he
    obtain ⟨i, hi, rfl⟩ := List.mem_mapIdx.mp he
    simp [(Store.mem_active_iff.mp (List.getElem_mem hi)).2.1]

end Entries

section Residual

/-- Weight of a Gram column; an entry off the diagonal stands for two. -/
noncomputable def pairWeight (pair : BasisPair) : ℝ :=
  if pair.isDiagonal then 1 else Scalar.sqrtTwo

noncomputable def columnWeights (p : Program ℝ) : List ℝ :=
  (upperTriangle p.order).map pairWeight ++ p.values.map fun _ => 1

theorem pairWeight_pos (pair : BasisPair) : 0 < pairWeight pair := by
  unfold pairWeight
  split
  · exact one_pos
  · exact Real.sqrt_pos.mpr two_pos

theorem pairWeight_mul_scaledCoefficient (pair : BasisPair) (q : ℝ) :
    pairWeight pair * scaledCoefficient pair q = q := by
  unfold pairWeight scaledCoefficient
  split
  · exact one_mul q
  · exact mul_div_cancel₀ q sqrt_two_ne_zero

variable {p : Program ℝ} {e : Expression ℝ}

theorem assigned_columns_slot (he : e.Canonical) (hBelow : e.GramBelow p.order)
    (hCovers : p.Covers e) {pair : BasisPair} (hPair : pair ∈ upperTriangle p.order) :
    pairWeight pair * assigned (p.columns e) pair.slot = e.gramCoefficient pair.row pair.col := by
  obtain ⟨hUpper, hCol⟩ := mem_upperTriangle.mp hPair
  rw [Expression.gramCoefficient, BasisPair.of_row_col hUpper]
  by_cases hMem : ∃ q, (pair, q) ∈ e.gram
  · obtain ⟨q, hTerm⟩ := hMem
    have hColumn : (pair.slot, scaledCoefficient pair q) ∈ p.columns e := by
      rw [columns_eq hCovers]
      exact List.mem_append_left _ (List.mem_map_of_mem hTerm)
    rw [assigned_eq_of_mem (columns_nodup he hBelow hCovers) hColumn,
      Terms.coefficient_of_mem he.gram hTerm, pairWeight_mul_scaledCoefficient]
  · have hAbsent : ∀ column ∈ p.columns e, column.1 ≠ pair.slot := by
      intro column hColumn
      rw [columns_eq hCovers, List.mem_append, List.mem_map, List.mem_map] at hColumn
      rcases hColumn with ⟨term, hTerm, rfl⟩ | ⟨term, -, rfl⟩
      · intro hSlot
        have hKey : term.1 = pair := BasisPair.eq_of_slot_eq (he.upper term hTerm) hUpper hSlot
        exact hMem ⟨term.2, hKey ▸ hTerm⟩
      · have hSlot := (BasisPair.slot_lt_triangular_iff hUpper p.order).mpr hCol
        exact (hSlot.trans_le (Nat.le_add_right _ _)).ne'
    rw [assigned_eq_zero hAbsent, mul_zero, Terms.coefficient_eq_zero]
    rintro term hTerm rfl
    exact hMem ⟨term.2, hTerm⟩

theorem assigned_columns_value (he : e.Canonical) (hBelow : e.GramBelow p.order)
    (hCovers : p.Covers e) {k : ValueIndex} (hk : k ∈ p.values) :
    assigned (p.columns e) (p.valueColumn k) = e.valueCoefficient k := by
  by_cases hMem : ∃ a, (k, a) ∈ e.values
  · obtain ⟨a, hTerm⟩ := hMem
    have hColumn : (p.valueColumn k, a) ∈ p.columns e := by
      rw [columns_eq hCovers]
      exact List.mem_append_right _ (List.mem_map_of_mem hTerm)
    rw [assigned_eq_of_mem (columns_nodup he hBelow hCovers) hColumn, Expression.valueCoefficient,
      Terms.coefficient_of_mem he.values hTerm]
  · have hAbsent : ∀ column ∈ p.columns e, column.1 ≠ p.valueColumn k := by
      intro column hColumn
      rw [columns_eq hCovers, List.mem_append, List.mem_map, List.mem_map] at hColumn
      rcases hColumn with ⟨term, hTerm, rfl⟩ | ⟨term, hTerm, rfl⟩
      · exact ((slot_lt_packed hBelow hTerm).trans_le (Nat.le_add_right _ _)).ne
      · intro hColumn'
        have hKey : term.1 = k := valueColumn_injective (hCovers term hTerm) hColumn'
        exact hMem ⟨term.2, hKey ▸ hTerm⟩
    rw [assigned_eq_zero hAbsent, Expression.valueCoefficient, Terms.coefficient_eq_zero]
    rintro term hTerm rfl
    exact hMem ⟨term.2, hTerm⟩

variable {c : ConicProgram ℝ} {y : List ℝ} {d : Duals ℝ}

theorem Lowers.dualResidualAt_eq (hc : p.Lowers p.constraintRows c) {j : ℕ} (hj : j < p.width) :
    c.dualResidualAt y j =
      ∑ i : Fin p.rows.length,
          y.getD i 0 * assigned (p.columns p.rows[i].2.constraint.lhs) j
        - (if j < p.packed then y.getD (p.rows.length + j) 0 else 0)
        - assigned (p.columns p.metric) j := by
  have hRow (i : Fin p.rows.length) : c.coefficients.coeff i j * y.getD i 0 =
      y.getD i 0 * assigned (p.columns p.rows[i].2.constraint.lhs) j := by
    have hHeight : (i : ℕ) < c.m := by
      rw [hc.height_eq]
      exact i.isLt
    have hi : (i : ℕ) < p.constraintRows.length := by simp [constraintRows]
    rw [← c.stackedAt_row hHeight, ConicData.stackedAt, if_pos hHeight,
      hc.coefficient i hi j hj, mul_comm]
    simp [constraintRows]
  have hRows : ∑ i ∈ Finset.range c.m, c.coefficients.coeff i j * y.getD i 0 =
      ∑ i : Fin p.rows.length, y.getD i 0 * assigned (p.columns p.rows[i].2.constraint.lhs) j := by
    calc ∑ i ∈ Finset.range c.m, c.coefficients.coeff i j * y.getD i 0
      _ = ∑ i ∈ Finset.range p.rows.length, c.coefficients.coeff i j * y.getD i 0 := by
          rw [← hc.height_eq]
      _ = _ := by
          rw [Finset.sum_range]
          exact Finset.sum_congr rfl fun i _ => hRow i
  rw [ConicData.dualResidualAt, ConicData.sum_stackedAt_column, hc.cost j hj, hRows,
    hc.height_eq, hc.packed_eq]
  split <;> ring

theorem Lowers.sum_boundAt (hc : p.Lowers p.constraintRows c) :
    ∑ i ∈ Finset.range c.m, c.boundAt i * y.getD i 0 =
      -∑ i : Fin p.rows.length, y.getD i 0 * p.rows[i].2.constraint.lhs.constant := by
  rw [hc.height_eq, Finset.sum_range, ← Finset.sum_neg_distrib]
  refine Finset.sum_congr rfl fun i _ => ?_
  rw [hc.boundAt_row i.isLt, neg_mul, mul_comm]
  rfl

theorem remainder_extract_constant (hp : p.WellFormed) (hd : p.dualsOf? y = some d) :
    (Certificate.extract p d.multipliers d.psd).remainder.constant = 0 := by
  rw [Certificate.linear_remainder (wellFormed_extract hp hd) (L := Expression.constant)
    (fun _ _ _ _ _ => rfl), sum_entries hd]
  rw [Expression.constant_subConst, bound_extract hd]
  exact sub_eq_zero.mpr (sub_sub_cancel _ _)

theorem remainder_extract_gram (hp : p.WellFormed) (hc : p.Lowers p.constraintRows c)
    (hy : y.length = p.rows.length + p.packed) (hd : p.dualsOf? y = some d) {pair : BasisPair}
    (hPair : pair ∈ upperTriangle p.order) :
    (Certificate.extract p d.multipliers d.psd).remainder.gramCoefficient pair.row pair.col
        + (Certificate.extract p d.multipliers d.psd).gramWeight pair =
      -(pairWeight pair * c.dualResidualAt y pair.slot) := by
  obtain ⟨hUpper, hCol⟩ := mem_upperTriangle.mp hPair
  have hSlot : pair.slot < p.packed := (BasisPair.slot_lt_triangular_iff hUpper _).mpr hCol
  have hPsd : (Certificate.extract p d.multipliers d.psd).gramWeight pair =
      pairWeight pair * y.getD (p.rows.length + pair.slot) 0 := by
    have hUnscaled := getD_unscale (y.drop p.rows.length) hUpper
    simp only [Certificate.gramWeight_eq, Certificate.extract, psd_eq hy hd, hUnscaled, pairWeight,
      List.getD_eq_getElem?_getD, List.getElem?_drop]
    split
    · exact (one_mul _).symm
    · rw [sqrtTwo_real, mul_div_assoc', div_eq_iff sqrt_two_ne_zero, mul_right_comm,
        sqrt_two_mul_self]
  have hRows (i : Fin p.rows.length) :
      pairWeight pair * assigned (p.columns p.rows[i].2.constraint.lhs) pair.slot =
        p.rows[i].2.constraint.lhs.gramCoefficient pair.row pair.col := by
    have hRow : p.rows[i] ∈ p.rows := List.getElem_mem i.isLt
    exact assigned_columns_slot (hp.row hRow).1 (hp.row hRow).2 (covers_row hRow) hPair
  have hMetric := assigned_columns_slot hp.metric.1 hp.metric.2 p.covers_metric hPair
  rw [Certificate.linear_remainder (wellFormed_extract hp hd)
    (L := fun e => e.gramCoefficient pair.row pair.col)
    (fun e x a he hx => Expression.gramCoefficient_axpy he hx a _ _),
    sum_entries hd fun e => e.gramCoefficient pair.row pair.col, hPsd,
    hc.dualResidualAt_eq (hSlot.trans_le p.packed_le_width), if_pos hSlot, mul_sub, mul_sub,
    hMetric, Finset.mul_sum]
  have hSum : ∑ i : Fin p.rows.length, pairWeight pair *
      (y.getD i 0 * assigned (p.columns p.rows[i].2.constraint.lhs) pair.slot) =
      ∑ i : Fin p.rows.length,
        y.getD i 0 * p.rows[i].2.constraint.lhs.gramCoefficient pair.row pair.col :=
    Finset.sum_congr rfl fun i _ => by rw [mul_left_comm, hRows i]
  rw [hSum]
  change p.metric.gramCoefficient pair.row pair.col - _ + _ = _
  ring

theorem remainder_extract_value (hp : p.WellFormed) (hc : p.Lowers p.constraintRows c)
    (hd : p.dualsOf? y = some d) {k : ValueIndex} (hk : k ∈ p.values) :
    (Certificate.extract p d.multipliers d.psd).remainder.valueCoefficient k =
      -c.dualResidualAt y (p.valueColumn k) := by
  have hColumn : ¬ p.valueColumn k < p.packed := Nat.not_lt.mpr (Nat.le_add_right _ _)
  have hRows (i : Fin p.rows.length) :
      assigned (p.columns p.rows[i].2.constraint.lhs) (p.valueColumn k) =
        p.rows[i].2.constraint.lhs.valueCoefficient k := by
    have hRow : p.rows[i] ∈ p.rows := List.getElem_mem i.isLt
    exact assigned_columns_value (hp.row hRow).1 (hp.row hRow).2 (covers_row hRow) hk
  rw [Certificate.linear_remainder (wellFormed_extract hp hd)
    (L := fun e => e.valueCoefficient k)
    (fun e x a he hx => Expression.valueCoefficient_axpy he hx a _),
    sum_entries hd fun e => e.valueCoefficient k, hc.dualResidualAt_eq (valueColumn_lt hk),
    if_neg hColumn, assigned_columns_value hp.metric.1 hp.metric.2 p.covers_metric hk]
  simp only [hRows]
  change p.metric.valueCoefficient k - _ = _
  ring

theorem map_range_width (p : Program ℝ) (f : ℕ → ℝ) :
    (List.range p.width).map f =
      (upperTriangle p.order).map (fun pair => f pair.slot) ++
        p.values.map fun k => f (p.valueColumn k) := by
  rw [width, map_range_add]
  congr 1
  · rw [packed, ← map_slot_upperTriangle, List.map_map]
    rfl
  · apply List.ext_getElem (by simp)
    intro i hi hi'
    have hValue : i < p.values.length := by simpa using hi'
    simp [valueColumn, p.values_nodup.idxOf_getElem i hValue]

noncomputable def weightedResiduals (p : Program ℝ) (t : List ℝ) : List ℝ :=
  List.zipWith (fun weight a => weight * |a|) p.columnWeights t

theorem forall_weightedResiduals_iff (p : Program ℝ) (f : ℕ → ℝ) {P : ℝ → Prop} :
    (∀ a ∈ p.weightedResiduals ((List.range p.width).map f), P a) ↔
      (∀ k ∈ p.values, P |f (p.valueColumn k)|) ∧
        ∀ pair ∈ upperTriangle p.order, P (pairWeight pair * |f pair.slot|) := by
  rw [weightedResiduals, columnWeights, map_range_width, List.zipWith_append (by simp)]
  simp only [List.zipWith_map, List.zipWith_self, List.forall_mem_append, List.forall_mem_map,
    one_mul]
  exact and_comm

/-- Values with a term in the remainder have columns, and the others cancel. -/
theorem residual_extract_le_iff (hp : p.WellFormed) (hc : p.Lowers p.constraintRows c)
    (hy : y.length = p.rows.length + p.packed) (hd : p.dualsOf? y = some d)
    (minEigenvalue : List ℝ → Option ℝ) {b : ℝ} :
    ((Certificate.extract p d.multipliers d.psd).verify minEigenvalue).residual ≤ b ↔
      0 ≤ b ∧ (∀ k ∈ p.values, |c.dualResidualAt y (p.valueColumn k)| ≤ b) ∧
        ∀ pair ∈ upperTriangle p.order,
          pairWeight pair * |c.dualResidualAt y pair.slot| ≤ b := by
  have hWellFormed := wellFormed_extract hp hd
  rw [Certificate.residual_verify_le_iff, remainder_extract_constant hp hd, abs_zero]
  refine and_congr_right fun hb => and_congr ?_ ?_
  · have hCoefficient : ∀ k ∈ p.values, |c.dualResidualAt y (p.valueColumn k)| =
        |(Certificate.extract p d.multipliers d.psd).remainder.valueCoefficient k| := by
      intro k hk
      rw [remainder_extract_value hp hc hd hk, abs_neg]
    constructor
    · intro h k hk
      rw [hCoefficient k hk]
      exact Terms.abs_coefficient_le hb h k
    · intro h term hTerm
      have hValue : term.1 ∈ p.values := by
        refine Certificate.remainder_values_mem hWellFormed p.covers_metric ?_ term hTerm
        intro e he
        rw [entries_extract hd, List.mem_mapIdx] at he
        obtain ⟨i, hi, rfl⟩ := he
        exact covers_row (List.getElem_mem hi)
      have hTermCoefficient := Terms.coefficient_of_mem hWellFormed.remainder.1.values hTerm
      rw [← hTermCoefficient]
      exact hCoefficient _ hValue ▸ h _ hValue
  · refine forall₂_congr fun pair hPair => ?_
    rw [remainder_extract_gram hp hc hy hd hPair, abs_neg, abs_mul,
      abs_of_pos (pairWeight_pos pair)]

/-- A dual vector of the conic program and the certificate that it is read as agree: on the bound,
on the residual, and on the least multiplier. -/
theorem extract_eq_conicDual (p : Program ℝ) (hp : p.WellFormed)
    (minEigenvalue : List ℝ → Option ℝ) {y : List ℝ} (hy : y.length = p.rows.length + p.packed) :
    ∃ c d t b check, p.lower? = some c ∧ p.dualsOf? y = some d ∧
      c.dualResidual? y = some t ∧ c.boundOperator.transposeProduct? y = some [b] ∧
      (Certificate.extract p d.multipliers d.psd).verify? minEigenvalue = some check ∧
      (Certificate.extract p d.multipliers d.psd).bound = p.metric.constant + b ∧
      check.bound = p.metric.constant + b ∧
      check.residual = (p.weightedResiduals t).max?.getD 0 ∧
      check.minMultiplier = ((y.drop p.equalityCount).take p.inequalityCount).min? ∧
      (check.residual = 0 ↔ ∀ a ∈ t, a = 0) := by
  obtain ⟨c, hLower, hc⟩ := exists_lower? hp
  obtain ⟨d, hd⟩ : ∃ d, p.dualsOf? y = some d :=
    ⟨⟨_, _⟩, dualsOf?_eq_some_iff.mpr ⟨hy.ge, rfl, rfl⟩⟩
  have hHeight : y.length = c.m + c.packed := by rw [hc.height_eq, hc.packed_eq, hy]
  have hResidual := c.dualResidual?_eq hHeight
  rw [hc.width] at hResidual
  have hNonneg : ∀ a ∈ p.weightedResiduals ((List.range p.width).map (c.dualResidualAt y)),
      0 ≤ a := by
    rw [forall_weightedResiduals_iff]
    exact ⟨fun k _ => abs_nonneg _,
      fun pair _ => mul_nonneg (pairWeight_pos pair).le (abs_nonneg _)⟩
  have hBound : (Certificate.extract p d.multipliers d.psd).bound = p.metric.constant +
      ∑ i ∈ Finset.range (c.m + c.packed), c.boundAt i * y.getD i 0 := by
    rw [ConicData.sum_boundAt, hc.sum_boundAt, bound_extract hd, sub_eq_add_neg]
  have hMax : ((Certificate.extract p d.multipliers d.psd).verify minEigenvalue).residual =
      (p.weightedResiduals ((List.range p.width).map (c.dualResidualAt y))).max?.getD 0 := by
    apply eq_of_forall_ge_iff
    intro b
    rw [residual_extract_le_iff hp hc hy hd, max?_getD_le_iff hNonneg, forall_weightedResiduals_iff]
  refine ⟨c, d, _, _, _, hLower, hd, hResidual, c.boundOperator_transposeProduct? hHeight,
    if_pos (length_psd hd).le, hBound, hBound, hMax,
    minMultiplier_extract hy hd minEigenvalue, ?_⟩
  rw [map_range_width, List.forall_mem_append, List.forall_mem_map, List.forall_mem_map]
  constructor
  · intro hZero
    obtain ⟨-, hValues, hPairs⟩ :=
      (residual_extract_le_iff hp hc hy hd minEigenvalue).mp hZero.le
    refine ⟨fun pair hPair => ?_, fun k hk => abs_nonpos_iff.mp (hValues k hk)⟩
    have hAbs := nonpos_of_mul_nonpos_right (hPairs pair hPair) (pairWeight_pos pair)
    exact abs_nonpos_iff.mp hAbs
  · rintro ⟨hPairs, hValues⟩
    apply le_antisymm
    · rw [residual_extract_le_iff hp hc hy hd]
      refine ⟨le_rfl, fun k hk => ?_, fun pair hPair => ?_⟩
      · rw [hValues k hk, abs_zero]
      · rw [hPairs pair hPair, abs_zero, mul_zero]
    · exact ((residual_extract_le_iff hp hc hy hd minEigenvalue).mp le_rfl).1

theorem extract_eq_conicDual_pair : pairProgram.WellFormed ∧ ∃ c d t b check,
    pairProgram.lower? = some c ∧ pairProgram.dualsOf? [-2, 3, 1, 0, 1] = some d ∧
      c.dualResidual? [-2, 3, 1, 0, 1] = some t ∧
      c.boundOperator.transposeProduct? [-2, 3, 1, 0, 1] = some [b] ∧
      (Certificate.extract pairProgram d.multipliers d.psd).verify? (fun _ => none) = some check ∧
      check.bound = 1 + b ∧ check.residual = (pairProgram.weightedResiduals t).max?.getD 0 ∧
      check.minMultiplier = some 3 := by
  obtain ⟨c, d, t, b, check, hLower, hd, ht, hb, hCheck, -, hBound, hResidual, hMin, -⟩ :=
    extract_eq_conicDual pairProgram pairProgram_wellFormed (fun _ => none)
      (y := [-2, 3, 1, 0, 1]) rfl
  exact ⟨pairProgram_wellFormed, c, d, t, b, check, hLower, hd, ht, hb, hCheck, hBound, hResidual,
    hMin⟩

end Residual

end Program

end PerformanceEstimation
