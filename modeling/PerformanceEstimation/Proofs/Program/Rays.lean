import Mathlib
import PerformanceEstimation.Proofs.Program.Feasibility

/-!
# The ray test

The feasible unknowns of a homogeneous program form a cone, on which a metric is unbounded or never
exceeds its constant. The rows that the normalized program adds bound the trace of the Gram matrix
and every function value, so it has a vector of positive metric exactly when the cone has a
direction along which the metric grows (`rayTest_exact`).
-/

set_option autoImplicit false

namespace PerformanceEstimation

section Cones

variable {E : Type*} [AddCommGroup E] [Module ℝ E] {C : PointedCone ℝ E} {f : E →ₗ[ℝ] ℝ}

/-- A linear functional on a cone is bounded above only if it is nowhere positive. -/
theorem not_bddAbove_of_pos (a : ℝ) {u : E} (hu : u ∈ C) (hPos : 0 < f u) :
    ¬ BddAbove ((fun v => a + f v) '' C) := by
  rintro ⟨b, hb⟩
  obtain ⟨n, hn⟩ := exists_nat_gt ((b - a) / f u)
  have hScaled : (n : ℝ) • u ∈ C := C.smul_mem n.cast_nonneg hu
  have hBound := hb (Set.mem_image_of_mem _ hScaled)
  rw [map_smul, smul_eq_mul] at hBound
  rw [div_lt_iff₀ hPos] at hn
  linarith

/-- Its largest value is then at the apex. -/
theorem isGreatest_of_nonpos (a : ℝ) (h : ∀ u ∈ C, f u ≤ 0) :
    IsGreatest ((fun v => a + f v) '' C) a := by
  refine ⟨⟨0, C.zero_mem, by simp⟩, ?_⟩
  rintro _ ⟨u, hu, rfl⟩
  exact add_le_of_nonpos_right (h u hu)

theorem bddAbove_iff (a : ℝ) :
    BddAbove ((fun v => a + f v) '' C) ↔ ∀ u ∈ C, f u ≤ 0 := by
  constructor
  · intro hBounded u hu
    by_contra hPos
    exact not_bddAbove_of_pos a hu (not_le.mp hPos) hBounded
  · intro h
    exact ⟨a, (isGreatest_of_nonpos a h).2⟩

end Cones

namespace Expression

/-- The linear part of an expression, as a functional of the Gram matrix and the values. -/
noncomputable def functional (d : ℕ) (e : Expression ℝ) :
    SquareMatrix d × (ValueIndex → ℝ) →ₗ[ℝ] ℝ where
  toFun u := e.gram.total (entryAt u.1) + e.values.total u.2
  map_add' u v := by
    rw [Prod.fst_add, Prod.snd_add, entryAt_add, Terms.total_add, Terms.total_add]
    ring
  map_smul' a u := by
    rw [Prod.smul_fst, Prod.smul_snd, entryAt_smul, Terms.total_smul, Terms.total_smul]
    exact (mul_add _ _ _).symm

theorem evalAt_eq_functional (e : Expression ℝ) {d : ℕ} (G : SquareMatrix d)
    (value : ValueIndex → ℝ) :
    e.evalAt (entryAt G) value = e.constant + e.functional d (G, value) := by
  rw [evalAt_eq_total, add_assoc]
  rfl

theorem evalAt_linearPart_eq_functional (e : Expression ℝ) {d : ℕ} (G : SquareMatrix d)
    (value : ValueIndex → ℝ) :
    e.linearPart.evalAt (entryAt G) value = e.functional d (G, value) := by
  have hConstant : e.linearPart.constant = 0 := zero_real
  rw [evalAt_eq_functional, hConstant, zero_add]
  rfl

end Expression

namespace Constraint

variable {d : ℕ} {c : Constraint ℝ}

theorem holdsAt_iff_functional (hc : c.lhs.constant = 0)
    {u : SquareMatrix d × (ValueIndex → ℝ)} :
    c.HoldsAt (entryAt u.1) u.2 ↔
      c.lhs.functional d u ≤ 0 ∧ (c.sense = .equal → 0 ≤ c.lhs.functional d u) := by
  have hEval : c.lhs.evalAt (entryAt u.1) u.2 = c.lhs.functional d u := by
    rw [Expression.evalAt_eq_functional, hc, zero_add]
  -- an equality is an inequality that holds from both sides
  cases hSense : c.sense with
  | lessEq => simp [holdsAt_lessEq _ _ hSense, hEval]
  | equal => simp [holdsAt_equal _ _ hSense, hEval, le_antisymm_iff]

def holdingCone (c : Constraint ℝ) (d : ℕ) (hc : c.lhs.constant = 0) :
    PointedCone ℝ (SquareMatrix d × (ValueIndex → ℝ)) where
  carrier := {u | c.HoldsAt (entryAt u.1) u.2}
  zero_mem' := by
    rw [Set.mem_ofPred_eq, holdsAt_iff_functional hc, map_zero]
    exact ⟨le_rfl, fun _ => le_rfl⟩
  add_mem' := by
    intro u v hu hv
    rw [Set.mem_ofPred_eq, holdsAt_iff_functional hc] at hu hv ⊢
    rw [map_add]
    exact ⟨add_nonpos hu.1 hv.1, fun h => add_nonneg (hu.2 h) (hv.2 h)⟩
  smul_mem' := by
    rintro ⟨a, ha⟩ u hu
    rw [Set.mem_ofPred_eq, holdsAt_iff_functional hc] at hu ⊢
    rw [show (⟨a, ha⟩ : {r : ℝ // 0 ≤ r}) • u = a • u from rfl, map_smul]
    exact ⟨mul_nonpos_of_nonneg_of_nonpos ha hu.1, fun h => mul_nonneg ha (hu.2 h)⟩

end Constraint

namespace Program

variable {p : Program ℝ}

section Cone

/-- The Gram matrices and function values that satisfy all rows. -/
def feasibleUnknowns (p : Program ℝ) : Set (SquareMatrix p.order × (ValueIndex → ℝ)) :=
  {u | p.Feasible u.1 u.2}

noncomputable def metricValues (p : Program ℝ) : Set ℝ :=
  (fun u => p.metric.evalAt (entryAt u.1) u.2) '' p.feasibleUnknowns

theorem constant_eq_zero (h : p.isHomogeneous = true) {row : ConstraintId × StoredConstraint ℝ}
    (hRow : row ∈ p.rows) : row.2.constraint.lhs.constant = 0 := by
  have hAll := List.all_eq_true.mp h row hRow
  simpa using hAll

/-- Without constants in the rows they form a cone. -/
def feasibleCone (p : Program ℝ) (h : p.isHomogeneous = true) :
    PointedCone ℝ (SquareMatrix p.order × (ValueIndex → ℝ)) where
  carrier := p.feasibleUnknowns
  zero_mem' := ⟨Matrix.PosSemidef.zero, fun row hRow =>
    (row.2.constraint.holdingCone p.order (constant_eq_zero h hRow)).zero_mem⟩
  add_mem' hu hv := ⟨hu.posSemidef.add hv.posSemidef, fun row hRow =>
    (row.2.constraint.holdingCone p.order (constant_eq_zero h hRow)).add_mem (hu.rows row hRow)
      (hv.rows row hRow)⟩
  smul_mem' a _ hu := ⟨hu.posSemidef.smul a.2, fun row hRow =>
    (row.2.constraint.holdingCone p.order (constant_eq_zero h hRow)).smul_mem a.2
      (hu.rows row hRow)⟩

theorem metricValues_eq (h : p.isHomogeneous = true) :
    p.metricValues =
      (fun u => p.metric.constant + p.metric.functional p.order u) '' (p.feasibleCone h) :=
  Set.image_congr fun u _ => p.metric.evalAt_eq_functional u.1 u.2

end Cone

section Normalized

variable {G : SquareMatrix p.order} {value : ValueIndex → ℝ}

theorem getD_vectorOf_diagonal (i : Fin p.order) :
    (p.vectorOf G value).getD (gramSlot ⟨i⟩ ⟨i⟩) 0 = G i i := by
  rw [← getD_take _ (gramSlot_self_lt i.isLt), take_vectorOf, gramSlot_self, scaledPacking,
    getD_map_upperTriangle _ (diagonal_mem_upperTriangle i.isLt),
    if_pos (BasisPair.isDiagonal_iff.mpr rfl), entryAt_coe]

theorem getD_vectorOf_value {k : ℕ} (hk : k < p.values.length) :
    (p.vectorOf G value).getD (p.packed + k) 0 = value p.values[k] := by
  have hEntry : (p.vectorOf G value)[p.packed + k]? = (p.values.map value)[k]? := by
    rw [← drop_vectorOf (G := G), List.getElem?_drop]
  rw [List.getD_eq_getElem?_getD, hEntry, List.getElem?_map, List.getElem?_eq_getElem hk]
  rfl

noncomputable def traceRow (p : Program ℝ) : Row ℝ :=
  ⟨(List.range p.order).map fun i => (gramSlot ⟨i⟩ ⟨i⟩, 1), 1⟩

noncomputable def valueRow (p : Program ℝ) (k : ℕ) (a : ℝ) : Row ℝ :=
  ⟨[(p.packed + k, a)], 1⟩

theorem normalizingRows_eq (p : Program ℝ) :
    p.normalizingRows = p.traceRow :: (List.range p.values.length).flatMap fun k =>
      [p.valueRow k 1, p.valueRow k (-1)] := by
  simp only [normalizingRows, one_real]
  rfl

theorem forall_normalizingRows {P : Row ℝ → Prop} :
    (∀ row ∈ p.normalizingRows, P row) ↔
      P p.traceRow ∧ ∀ k < p.values.length, P (p.valueRow k 1) ∧ P (p.valueRow k (-1)) := by
  rw [normalizingRows_eq, List.forall_mem_cons]
  refine and_congr_right' ?_
  simp only [List.forall_mem_flatMap, List.mem_range, List.forall_mem_cons, List.not_mem_nil,
    false_imp_iff, implies_true, and_true]

theorem traceRow_inside : ∀ column ∈ p.traceRow.columns, column.1 < p.width :=
  normalizingRows_inside _ (normalizingRows_eq p ▸ List.mem_cons_self)

theorem traceRow_nodup : (p.traceRow.columns.map (·.1)).Nodup := by
  rw [traceRow, List.map_map]
  refine List.nodup_range.map fun i j hij => ?_
  have hSlot : gramSlot ⟨i⟩ ⟨i⟩ = gramSlot ⟨j⟩ ⟨j⟩ := hij
  rw [gramSlot_self, gramSlot_self] at hSlot
  have hPair := BasisPair.eq_of_slot_eq (Nat.le_refl i) (Nat.le_refl j) hSlot
  exact congrArg (·.row.pos) hPair

theorem valueRow_inside (a : ℝ) {k : ℕ} (hk : k < p.values.length) :
    ∀ column ∈ (p.valueRow k a).columns, column.1 < p.width := by
  simpa [valueRow, width] using hk

theorem slackAt_traceRow : p.traceRow.slackAt p.width (p.vectorOf G value) = 1 - G.trace := by
  have hEntry (i : Fin p.order) :
      1 * (p.vectorOf G value).getD (gramSlot ⟨i⟩ ⟨i⟩) 0 = G i i := by
    rw [one_mul, getD_vectorOf_diagonal]
  rw [Row.slackAt_eq traceRow_nodup traceRow_inside, traceRow, List.map_map]
  congr 1
  calc ((List.range p.order).map fun i =>
      1 * (p.vectorOf G value).getD (gramSlot ⟨i⟩ ⟨i⟩) 0).sum
    _ = ∑ i ∈ Finset.range p.order, 1 * (p.vectorOf G value).getD (gramSlot ⟨i⟩ ⟨i⟩) 0 := rfl
    _ = ∑ i : Fin p.order, G i i := by simp only [Finset.sum_range, hEntry]

theorem slackAt_valueRow (a : ℝ) {k : ℕ} (hk : k < p.values.length) :
    (p.valueRow k a).slackAt p.width (p.vectorOf G value) = 1 - a * value p.values[k] := by
  have hNodup : ((p.valueRow k a).columns.map (·.1)).Nodup := List.nodup_singleton _
  rw [Row.slackAt_eq hNodup (valueRow_inside a hk), valueRow, List.map_singleton,
    List.sum_singleton, getD_vectorOf_value hk]

/-- The rows that are added say what they are meant to say. -/
theorem slackAt_normalizingRows_iff :
    (∀ row ∈ p.normalizingRows, 0 ≤ row.slackAt p.width (p.vectorOf G value)) ↔
      G.trace ≤ 1 ∧ ∀ k ∈ p.values, |value k| ≤ 1 := by
  rw [forall_normalizingRows, slackAt_traceRow, sub_nonneg, List.forall_mem_iff_forall_getElem]
  refine and_congr_right' (forall₂_congr fun k hk => ?_)
  rw [slackAt_valueRow 1 hk, slackAt_valueRow (-1) hk, abs_le]
  constructor <;> rintro ⟨hUpper, hLower⟩ <;> constructor <;> linarith

theorem exists_lowerNormalized? (hp : p.WellFormed) :
    ∃ c, p.lowerNormalized? = some c ∧ p.Lowers (p.constraintRows ++ p.normalizingRows) c := by
  have hRows := constraintRows_inside fun row hRow => (hp.row hRow).2
  apply exists_lowerRows?
  · exact columns_lt hp.metric.2 p.covers_metric
  · exact List.forall_mem_append.mpr ⟨hRows, normalizingRows_inside⟩
  · rw [List.length_append]
    exact p.equalityCount_le.trans (Nat.le_add_right _ _)

end Normalized

section Test

variable {c c' : ConicProgram ℝ} {G : SquareMatrix p.order} {value : ValueIndex → ℝ}

theorem Lowers.normalized_vectorOf_iff (hc : p.Lowers p.constraintRows c)
    (hc' : p.Lowers (p.constraintRows ++ p.normalizingRows) c') :
    c'.Feasible (p.vectorOf G value) ↔
      c.Feasible (p.vectorOf G value) ∧ G.trace ≤ 1 ∧ ∀ k ∈ p.values, |value k| ≤ 1 := by
  rw [hc.feasible_append_iff hc' length_vectorOf, slackAt_normalizingRows_iff]

theorem Lowers.normalized_iff (hc : p.Lowers p.constraintRows c)
    (hc' : p.Lowers (p.constraintRows ++ p.normalizingRows) c') (x : List ℝ) :
    c'.Feasible x ↔ c.Feasible x ∧ ∃ G F, p.unknowns? x = some (G, F) ∧ G.trace ≤ 1 ∧
      ∀ a ∈ F, -1 ≤ a ∧ a ≤ 1 := by
  by_cases hx : x.length = p.width
  · obtain ⟨G, value, hG, rfl⟩ := exists_vectorOf hx
    rw [hc.normalized_vectorOf_iff hc', unknowns?_vectorOf hG]
    simp [abs_le]
  · have hNormalized : ¬ c'.Feasible x := fun h => hx (h.1.trans hc'.width)
    have hOrdinary : ¬ c.Feasible x := fun h => hx (h.1.trans hc.width)
    simp only [hNormalized, hOrdinary, false_and]

theorem Lowers.normalized_bounds (hc : p.Lowers p.constraintRows c)
    (hc' : p.Lowers (p.constraintRows ++ p.normalizingRows) c') (hp : p.WellFormed) {x : List ℝ}
    (hx : c'.Feasible x) :
    ∃ G F, p.unknowns? x = some (G, F) ∧ (∀ a ∈ F, |a| ≤ 1) ∧ ∀ i j, |G i j| ≤ 1 := by
  obtain ⟨G, value, hG, rfl⟩ := exists_vectorOf (hx.1.trans hc'.width)
  obtain ⟨hOrdinary, hTrace, hValues⟩ := (hc.normalized_vectorOf_iff hc').mp hx
  have hPos : G.PosSemidef := ((hc.feasible_vectorOf_iff hp hG).mp hOrdinary).posSemidef
  refine ⟨G, p.values.map value, unknowns?_vectorOf hG, ?_, fun i j => ?_⟩
  · exact List.forall_mem_map.mpr hValues
  · exact (abs_apply_le_trace hPos i j).trans hTrace

theorem metricLinear_eq_functional (hp : p.WellFormed) :
    p.metricLinear (p.vectorOf G value) = p.metric.functional p.order (G, value) := by
  have hMetric : p.metricLinear (p.vectorOf G value) + p.metric.constant =
      p.metric.evalAt (entryAt G) value := metricLinear_vectorOf hp
  rw [Expression.evalAt_eq_functional, add_comm] at hMetric
  exact add_left_cancel hMetric

/-- Feasible unknowns meet the added rows once they are scaled down far enough. -/
theorem exists_scaling (hG : G.PosSemidef) (value : ValueIndex → ℝ) :
    ∃ t : ℝ, 0 < t ∧ (t • G).trace ≤ 1 ∧ ∀ k ∈ p.values, |(t • value) k| ≤ 1 := by
  have hTrace : 0 ≤ G.trace := hG.trace_nonneg
  have hSum : 0 ≤ (p.values.map fun k => |value k|).sum :=
    List.sum_nonneg (List.forall_mem_map.mpr fun k _ => abs_nonneg (value k))
  have hPos : 0 < 1 + G.trace + (p.values.map fun k => |value k|).sum := by linarith
  refine ⟨_, inv_pos.mpr hPos, ?_, fun k hk => ?_⟩
  · rw [Matrix.trace_smul, smul_eq_mul, inv_mul_le_one₀ hPos]
    linarith
  · have hValue := List.single_le_sum (List.forall_mem_map.mpr fun k _ => abs_nonneg (value k)) _
      (List.mem_map_of_mem hk)
    rw [Pi.smul_apply, smul_eq_mul, abs_mul, abs_of_pos (inv_pos.mpr hPos), inv_mul_le_one₀ hPos]
    linarith

theorem exists_normalized_iff (hp : p.WellFormed) (h : p.isHomogeneous = true)
    (hc : p.Lowers p.constraintRows c)
    (hc' : p.Lowers (p.constraintRows ++ p.normalizingRows) c') :
    (∃ x, c'.Feasible x ∧ 0 < p.metricLinear x) ↔
      ∃ u ∈ p.feasibleCone h, 0 < p.metric.functional p.order u := by
  constructor
  · rintro ⟨x, hx, hGrows⟩
    obtain ⟨G, value, hG, rfl⟩ := exists_vectorOf (hx.1.trans hc'.width)
    rw [metricLinear_eq_functional hp] at hGrows
    have hOrdinary := ((hc.normalized_vectorOf_iff hc').mp hx).1
    exact ⟨(G, value), (hc.feasible_vectorOf_iff hp hG).mp hOrdinary, hGrows⟩
  · rintro ⟨⟨G, value⟩, hu, hGrows⟩
    obtain ⟨t, ht, hBounds⟩ := exists_scaling (p := p) hu.posSemidef value
    have hScaled : p.Feasible (t • G) (t • value) := (p.feasibleCone h).smul_mem ht.le hu
    have hOrdinary : c.Feasible (p.vectorOf (t • G) (t • value)) :=
      (hc.feasible_vectorOf_iff hp (isSymm_of_posSemidef hScaled.posSemidef)).mpr hScaled
    refine ⟨_, (hc.normalized_vectorOf_iff hc').mpr ⟨hOrdinary, hBounds⟩, ?_⟩
    rw [metricLinear_eq_functional hp, ← Prod.smul_mk, map_smul, smul_eq_mul]
    exact mul_pos ht hGrows

/-- The ray test is exact. The added rows bound the trace and the function values by one, and with
them all Gram entries. A homogeneous program has a cone of feasible unknowns; its metric is
unbounded exactly when some feasible unknowns make its linear part positive, exactly when the
normalized program has such a vector, and otherwise its largest value is its constant. -/
theorem rayTest_exact (p : Program ℝ) (hp : p.WellFormed) :
    ∃ c c', p.lower? = some c ∧ p.lowerNormalized? = some c' ∧
      (∀ x, c'.Feasible x ↔ c.Feasible x ∧ ∃ G F, p.unknowns? x = some (G, F) ∧ G.trace ≤ 1 ∧
        ∀ a ∈ F, -1 ≤ a ∧ a ≤ 1) ∧
      (∀ x, c'.Feasible x → ∃ G F, p.unknowns? x = some (G, F) ∧ (∀ a ∈ F, |a| ≤ 1) ∧
        ∀ i j, |G i j| ≤ 1) ∧
      (p.isHomogeneous = true →
        (∃ C : PointedCone ℝ (SquareMatrix p.order × (ValueIndex → ℝ)),
          (C : Set (SquareMatrix p.order × (ValueIndex → ℝ))) = p.feasibleUnknowns) ∧
        [¬ BddAbove p.metricValues,
          ∃ u ∈ p.feasibleUnknowns, 0 < p.metric.linearPart.evalAt (entryAt u.1) u.2,
          ∃ x, c'.Feasible x ∧ 0 < p.metricLinear x].TFAE ∧
        (BddAbove p.metricValues → IsGreatest p.metricValues p.metric.constant)) := by
  obtain ⟨c, hLower, hc⟩ := exists_lower? hp
  obtain ⟨c', hLower', hc'⟩ := exists_lowerNormalized? hp
  refine ⟨c, c', hLower, hLower', hc.normalized_iff hc', fun x => hc.normalized_bounds hc' hp,
    fun h => ⟨⟨p.feasibleCone h, rfl⟩, ?_, ?_⟩⟩
  · have hLinear : (∃ u ∈ p.feasibleUnknowns, 0 < p.metric.linearPart.evalAt (entryAt u.1) u.2) ↔
        ∃ u ∈ p.feasibleCone h, 0 < p.metric.functional p.order u := by
      simp only [Expression.evalAt_linearPart_eq_functional, Prod.mk.eta]
      rfl
    have hBounded : ¬ BddAbove p.metricValues ↔
        ∃ u ∈ p.feasibleCone h, 0 < p.metric.functional p.order u := by
      simp only [metricValues_eq h, bddAbove_iff, not_forall, not_le, exists_prop]
    tfae_have 1 ↔ 2 := hBounded.trans hLinear.symm
    tfae_have 2 ↔ 3 := hLinear.trans (exists_normalized_iff hp h hc hc').symm
    tfae_finish
  · rw [metricValues_eq h, bddAbove_iff]
    exact isGreatest_of_nonpos p.metric.constant

/-- A value which is at least the square of one basis vector, and this square, plus one, as the
metric. -/
noncomputable def rayProgram : Program ℝ where
  store := ⟨[⟨⟨⟨[(⟨3⟩, -1)], [(⟨⟨0⟩, ⟨0⟩⟩, 1)], 0⟩, .lessEq⟩, .initialCondition⟩]⟩
  metric := ⟨[], [(⟨⟨0⟩, ⟨0⟩⟩, 1)], 1⟩
  order := 1

theorem rayProgram_wellFormed : rayProgram.WellFormed := by
  constructor
  · refine ⟨⟨?_, ?_, ?_⟩, ?_⟩ <;>
      simp [rayProgram, Terms.canonical_cons_iff, Terms.canonical_nil, BasisIndex.le_iff,
        Expression.GramBelow]
  · intro entry hEntry
    rw [List.mem_singleton.mp hEntry]
    refine ⟨⟨?_, ?_, ?_⟩, ?_⟩ <;>
      simp [rayProgram, Terms.canonical_cons_iff, Terms.canonical_nil, BasisIndex.le_iff,
        Expression.GramBelow]

theorem rayProgram_isHomogeneous : rayProgram.isHomogeneous = true := by
  simp [isHomogeneous, rows, rayProgram, Store.active, Store.items, Constraint.isActive]

theorem rayProgram_feasible : rayProgram.Feasible 1 fun _ => 1 := by
  refine ⟨Matrix.PosSemidef.one, ?_⟩
  simp [rows, rayProgram, Store.active, Store.items, Constraint.isActive, Constraint.HoldsAt,
    Expression.evalAt, entryAt]

/-- The square grows without bound, and the test finds a vector that says so. -/
theorem rayTest_exact_square : rayProgram.WellFormed ∧ ¬ BddAbove rayProgram.metricValues ∧
    ∃ c x, rayProgram.lowerNormalized? = some c ∧ c.Feasible x ∧ 0 < rayProgram.metricLinear x := by
  obtain ⟨c, c', -, hLower, -, -, hRay⟩ := rayTest_exact rayProgram rayProgram_wellFormed
  obtain ⟨-, hTest, -⟩ := hRay rayProgram_isHomogeneous
  have hGrows : ∃ u ∈ rayProgram.feasibleUnknowns,
      0 < rayProgram.metric.linearPart.evalAt (entryAt u.1) u.2 := by
    refine ⟨(1, fun _ => 1), rayProgram_feasible, ?_⟩
    simp [rayProgram, Expression.linearPart, Expression.evalAt, entryAt]
  obtain ⟨x, hx, hPos⟩ := (hTest.out 1 2).mp hGrows
  exact ⟨rayProgram_wellFormed, (hTest.out 1 0).mp hGrows, c', x, hLower, hx, hPos⟩

end Test

end Program

end PerformanceEstimation
