import Mathlib
import PerformanceEstimation.Proofs.Program.Lowering

/-!
# Feasible unknowns

A program is about a Gram matrix and function values; what a solver is handed is a vector over the
columns. `Program.vectorOf` writes the unknowns as a vector, and every vector of the right length is
written in this way. Whether it is feasible for a conic program can be read off row by row, and for
the lowered program it is exactly when the unknowns are (`Lowers.feasible_vectorOf_iff`).
-/

set_option autoImplicit false

namespace PerformanceEstimation

namespace ConicProgram

variable (c : ConicProgram ℝ) {x : List ℝ}

/-- The slacks of the vector, computed by the operators of the program, lie in the cone. -/
def Feasible (x : List ℝ) : Prop :=
  x.length = c.n ∧ ∃ ax b, c.constraintOperator.product? x = some ax ∧
    c.boundOperator.product? [1] = some b ∧ c.InCone (List.zipWith (· - ·) b ax)

noncomputable def slackAt (x : List ℝ) (i : ℕ) : ℝ :=
  c.boundAt i - ∑ j ∈ Finset.range c.n, c.stackedAt i j * x.getD j 0

theorem slackAt_packed {i : ℕ} (hi : i < c.packed) : c.slackAt x (c.m + i) = x.getD i 0 := by
  rw [slackAt, c.boundAt_of_le (Nat.le_add_right _ _), c.sum_stackedAt_packed hi, zero_sub, neg_neg]

theorem feasible_iff (hx : x.length = c.n) :
    c.Feasible x ↔ (∀ i < c.equalities, c.slackAt x i = 0) ∧
      (∀ i < c.m, c.equalities ≤ i → 0 ≤ c.slackAt x i) ∧
      ∃ M : SquareMatrix c.order, M.PosSemidef ∧ x.take c.packed = scaledPacking M := by
  have hSlack : c.Feasible x ↔ c.InCone ((List.range (c.m + c.packed)).map (c.slackAt x)) := by
    simp only [Feasible, hx, true_and, c.constraintOperator_product? hx, c.boundOperator_product?,
      Option.some.injEq, exists_and_left, exists_eq_left', List.zipWith_map, List.zipWith_self]
    rfl
  have hDrop : ((List.range (c.m + c.packed)).map (c.slackAt x)).drop c.m = x.take c.packed := by
    rw [map_range_add, List.drop_left' (by simp),
      eq_map_range_getD (v := x.take c.packed) (n := c.packed) (by simp [hx, c.packed_le])]
    refine List.map_congr_left fun i hi => ?_
    rw [c.slackAt_packed (List.mem_range.mp hi), getD_take x (List.mem_range.mp hi)]
  have hEntry {i : ℕ} (hi : i < c.m) :
      ((List.range (c.m + c.packed)).map (c.slackAt x)).getD i 0 = c.slackAt x i :=
    getD_map_range _ (Nat.lt_add_right _ hi)
  rw [hSlack, c.inCone_iff (by simp), hDrop]
  refine and_congr (forall₂_congr fun i hi => ?_) (and_congr_left' (forall₂_congr fun i hi => ?_))
  · rw [hEntry (hi.trans_le c.equalities_le)]
  · rw [hEntry hi]

end ConicProgram

namespace Program

/-- A positive semidefinite Gram matrix and function values that satisfy every row. -/
structure Feasible (p : Program ℝ) (G : SquareMatrix p.order) (value : ValueIndex → ℝ) : Prop where
  posSemidef : G.PosSemidef
  rows : ∀ row ∈ p.rows, row.2.constraint.HoldsAt (entryAt G) value

/-- The supremum of the metric, below every real number if nothing is feasible. -/
noncomputable def worstCase (p : Program ℝ) : EReal :=
  ⨆ (G : SquareMatrix p.order) (value : ValueIndex → ℝ) (_ : p.Feasible G value),
    ((p.metric.evalAt (entryAt G) value : ℝ) : EReal)

section Rows

variable {p : Program ℝ} {c c' : ConicProgram ℝ} {rows extra : List (Row ℝ)} {x : List ℝ}

noncomputable def Row.slackAt (row : Row ℝ) (width : ℕ) (x : List ℝ) : ℝ :=
  row.bound - ∑ j ∈ Finset.range width, assigned row.columns j * x.getD j 0

theorem Row.slackAt_eq {row : Row ℝ} {width : ℕ} (hNodup : (row.columns.map (·.1)).Nodup)
    (hInside : ∀ column ∈ row.columns, column.1 < width) (x : List ℝ) :
    row.slackAt width x =
      row.bound - (row.columns.map fun column => column.2 * x.getD column.1 0).sum := by
  rw [Row.slackAt, sum_assigned hNodup hInside]

theorem Lowers.slackAt_row (hc : p.Lowers rows c) (x : List ℝ) {i : ℕ} (hi : i < rows.length) :
    c.slackAt x i = rows[i].slackAt p.width x := by
  have hEntry : ∀ j ∈ Finset.range c.n, c.stackedAt i j * x.getD j 0 =
      assigned rows[i].columns j * x.getD j 0 := by
    intro j hj
    rw [ConicData.stackedAt, if_pos (hc.height ▸ hi),
      hc.coefficient i hi j (hc.width ▸ Finset.mem_range.mp hj)]
  rw [ConicProgram.slackAt, Row.slackAt, hc.bound i hi, Finset.sum_congr rfl hEntry, hc.width]

theorem Lowers.equalityCount_le (hc : p.Lowers rows c) : p.equalityCount ≤ rows.length := by
  rw [← hc.equalities, ← hc.height]
  exact c.equalities_le

theorem Lowers.feasible_iff (hc : p.Lowers rows c) (hx : x.length = p.width) :
    c.Feasible x ↔
      (∀ i (hi : i < rows.length), i < p.equalityCount → rows[i].slackAt p.width x = 0) ∧
      (∀ i (hi : i < rows.length), p.equalityCount ≤ i → 0 ≤ rows[i].slackAt p.width x) ∧
      ∃ M : SquareMatrix p.order, M.PosSemidef ∧ x.take p.packed = scaledPacking M := by
  have hCount : p.equalityCount ≤ rows.length := hc.equalityCount_le
  rw [c.feasible_iff (hx.trans hc.width.symm), hc.order, hc.packed_eq, hc.equalities, hc.height]
  refine and_congr ⟨fun h i hi hLow => ?_, fun h i hi => ?_⟩
    (and_congr_left' (forall₂_congr fun i hi => ?_))
  · rw [← hc.slackAt_row x hi]
    exact h i hLow
  · rw [hc.slackAt_row x (hi.trans_le hCount)]
    exact h i _ hi
  · rw [hc.slackAt_row x hi]

theorem Lowers.feasible_append_iff (hc : p.Lowers rows c) (hc' : p.Lowers (rows ++ extra) c')
    (hx : x.length = p.width) :
    c'.Feasible x ↔ c.Feasible x ∧ ∀ row ∈ extra, 0 ≤ row.slackAt p.width x := by
  have hCount : p.equalityCount ≤ rows.length := hc.equalityCount_le
  rw [hc'.feasible_iff hx, hc.feasible_iff hx]
  constructor
  · rintro ⟨hZero, hNonneg, hPacked⟩
    refine ⟨⟨fun i hi hLow => ?_, fun i hi hHigh => ?_, hPacked⟩, fun row hRow => ?_⟩
    · have hSlack := hZero i (by simp; omega) hLow
      rwa [List.getElem_append_left hi] at hSlack
    · have hSlack := hNonneg i (by simp; omega) hHigh
      rwa [List.getElem_append_left hi] at hSlack
    · obtain ⟨i, hi, rfl⟩ := List.mem_iff_getElem.mp hRow
      have hSlack := hNonneg (rows.length + i) (by simp; omega) (by omega)
      rw [List.getElem_append_right (Nat.le_add_right _ _)] at hSlack
      simpa only [Nat.add_sub_cancel_left] using hSlack
  · rintro ⟨⟨hZero, hNonneg, hPacked⟩, hExtra⟩
    refine ⟨fun i hi hLow => ?_, fun i hi hHigh => ?_, hPacked⟩
    · rw [List.getElem_append_left (hLow.trans_le hCount)]
      exact hZero i _ hLow
    · rcases Nat.lt_or_ge i rows.length with hOld | hNew
      · rw [List.getElem_append_left hOld]
        exact hNonneg i hOld hHigh
      · rw [List.getElem_append_right hNew]
        exact hExtra _ (List.getElem_mem _)

end Rows

section Vectors

variable {p : Program ℝ} {G : SquareMatrix p.order} {value : ValueIndex → ℝ} {e : Expression ℝ}

noncomputable def vectorOf (p : Program ℝ) (G : SquareMatrix p.order) (value : ValueIndex → ℝ) :
    List ℝ :=
  scaledPacking G ++ p.values.map value

@[simp] theorem length_vectorOf : (p.vectorOf G value).length = p.width := by
  simp [vectorOf, width, packed]

theorem take_vectorOf : (p.vectorOf G value).take p.packed = scaledPacking G :=
  List.take_left' (length_scaledPacking G)

theorem drop_vectorOf : (p.vectorOf G value).drop p.packed = p.values.map value :=
  List.drop_left' (length_scaledPacking G)

theorem unknowns?_vectorOf (hG : G.IsSymm) :
    p.unknowns? (p.vectorOf G value) = some (G, p.values.map value) := by
  rw [unknowns?_eq length_vectorOf, take_vectorOf, drop_vectorOf, unscale_scaledPacking,
    ofPacked_pack hG]

theorem exists_vectorOf {x : List ℝ} (hx : x.length = p.width) :
    ∃ (G : SquareMatrix p.order) (value : ValueIndex → ℝ), G.IsSymm ∧ x = p.vectorOf G value := by
  have hTake : (x.take p.packed).length = triangular p.order := by
    rw [List.length_take, hx]
    exact min_eq_left p.packed_le_width
  refine ⟨ofPacked p.order (unscale (x.take p.packed)), fun k => x.getD (p.valueColumn k) 0,
    ofPacked_isSymm _ _, ?_⟩
  have hDrop : p.values.map (fun k => x.getD (p.valueColumn k) 0) = x.drop p.packed := by
    apply List.ext_getElem (by simp [hx, width])
    intro i hi hi'
    have hx' : p.packed + i < x.length := by
      rw [List.length_drop] at hi'
      omega
    rw [List.getElem_map, List.getElem_drop, valueColumn, p.values_nodup.idxOf_getElem,
      List.getD_eq_getElem _ _ hx']
  rw [vectorOf, scaledPacking_ofPacked_unscale hTake, hDrop, List.take_append_drop]

/-- The unknowns as a solution, to which the lemmas on the lowering refer. -/
noncomputable def solutionOf (p : Program ℝ) (G : SquareMatrix p.order) (value : ValueIndex → ℝ) :
    Solution ℝ where
  worstCase := 0
  order := p.order
  gram := pack G
  values := p.values.zip (p.values.map value)
  multipliers := []
  psd := []
  warnings := []
  certificate := none

theorem reads_solutionOf : p.Reads (p.vectorOf G value) (p.solutionOf G value) where
  gram := by rw [gramOf?_eq length_vectorOf, take_vectorOf, unscale_scaledPacking, solutionOf]
  values := by rw [valuesOf?_eq length_vectorOf, drop_vectorOf, Option.map_some, solutionOf]

theorem eval_solutionOf (he : e.Canonical) (hBelow : e.GramBelow p.order) (hCovers : p.Covers e) :
    (p.solutionOf G value).eval e = e.evalAt (entryAt G) value := by
  have hGram : e.gram.total (p.solutionOf G value).gramEntry = e.gram.total (entryAt G) := by
    refine congrArg List.sum (List.map_congr_left fun term hTerm => ?_)
    have hMem : term.1 ∈ upperTriangle p.order :=
      mem_upperTriangle.mpr ⟨he.upper term hTerm, (hBelow term hTerm).2⟩
    rw [Solution.gramEntry, zero_real, solutionOf, pack, getD_map_upperTriangle _ hMem]
  have hValues : e.values.total (p.solutionOf G value).valueOf = e.values.total value := by
    refine congrArg List.sum (List.map_congr_left fun term hTerm => ?_)
    have hMem := hCovers term hTerm
    rw [Solution.valueOf, solutionOf, lookup_zip hMem, List.getElem?_map,
      List.getElem?_idxOf hMem]
    rfl
  rw [eval_eq_total, hGram, hValues, Expression.evalAt_eq_total, add_assoc]

theorem holdsAt_solutionOf_iff {c : Constraint ℝ} (hc : c.lhs.Canonical)
    (hBelow : c.lhs.GramBelow p.order) (hCovers : p.Covers c.lhs) :
    c.HoldsAt (p.solutionOf G value).gramEntry (p.solutionOf G value).valueOf ↔
      c.HoldsAt (entryAt G) value := by
  have hEval : c.lhs.evalAt (p.solutionOf G value).gramEntry (p.solutionOf G value).valueOf =
      c.lhs.evalAt (entryAt G) value := eval_solutionOf hc hBelow hCovers
  rw [Constraint.HoldsAt, Constraint.HoldsAt, hEval]

theorem metricLinear_vectorOf (hp : p.WellFormed) :
    p.metricLinear (p.vectorOf G value) + p.metric.constant = p.metric.evalAt (entryAt G) value := by
  rw [metricLinear_eq hp length_vectorOf reads_solutionOf,
    eval_solutionOf hp.metric.1 hp.metric.2 p.covers_metric]

theorem Lowers.feasible_vectorOf_iff {c : ConicProgram ℝ} (hc : p.Lowers p.constraintRows c)
    (hp : p.WellFormed) (hG : G.IsSymm) : c.Feasible (p.vectorOf G value) ↔ p.Feasible G value := by
  have hLength : (p.vectorOf G value).length = c.n := length_vectorOf.trans hc.width.symm
  have hax := c.constraintOperator_product? hLength
  have hb := c.boundOperator_product?
  have hCone : c.Feasible (p.vectorOf G value) ↔
      (ofPacked p.order (p.solutionOf G value).gram).PosSemidef ∧
      ∀ row ∈ p.rows, row.2.constraint.HoldsAt (p.solutionOf G value).gramEntry
        (p.solutionOf G value).valueOf := by
    rw [← hc.inCone_slack_iff length_vectorOf reads_solutionOf,
      ← hc.slack_eq hp length_vectorOf reads_solutionOf hax hb]
    simp only [ConicProgram.Feasible, hLength, true_and, hax, hb, Option.some.injEq,
      exists_and_left, exists_eq_left']
  have hGram : ofPacked p.order (p.solutionOf G value).gram = G := ofPacked_pack hG
  rw [hCone, hGram]
  have hRow {row : ConstraintId × StoredConstraint ℝ} (h : row ∈ p.rows) :
      row.2.constraint.HoldsAt (p.solutionOf G value).gramEntry (p.solutionOf G value).valueOf ↔
        row.2.constraint.HoldsAt (entryAt G) value :=
    holdsAt_solutionOf_iff (hp.row h).1 (hp.row h).2 (covers_row h)
  exact ⟨fun ⟨hPos, hRows⟩ => ⟨hPos, fun row h => (hRow h).mp (hRows row h)⟩,
    fun ⟨hPos, hRows⟩ => ⟨hPos, fun row h => (hRow h).mpr (hRows row h)⟩⟩

end Vectors

end Program

end PerformanceEstimation
