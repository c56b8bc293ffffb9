import Mathlib
import PerformanceEstimation.Proofs.Conic.Operators
import PerformanceEstimation.Proofs.Program.Layout
import PerformanceEstimation.Solution

/-!
# Exactness of the lowering

A well-formed program has a conic program, and the two say the same. On a vector of the columns, a
row falls short of its bound by the value of its constraint at the unknowns that the vector stands
for, and the cost is the negated metric without its constant. Vectors stand for unknowns one to one,
so the slacks of a vector lie in the cone exactly when its Gram matrix is positive semidefinite and
all rows hold.
-/

set_option autoImplicit false

namespace PerformanceEstimation

theorem lookup_zip {κ β : Type} [DecidableEq κ] {ks : List κ} {v : List β} {k : κ} (h : k ∈ ks) :
    (ks.zip v).lookup k = v[ks.idxOf k]? := by
  induction ks generalizing v with
  | nil => cases h
  | cons j ks ih =>
    cases v with
    | nil => simp
    | cons a v =>
      rw [List.zip_cons_cons, List.lookup_cons]
      by_cases hjk : k = j
      · simp [hjk]
      · have hTail : k ∈ ks := (List.mem_cons.mp h).resolve_left hjk
        simp [beq_false_of_ne hjk, ih hTail, List.idxOf_cons_ne ks (Ne.symm hjk)]

namespace Program

section Rows

/-- The conic program has the given rows below the columns of the program. -/
structure Lowers (p : Program ℝ) (rows : List (Row ℝ)) (c : ConicProgram ℝ) : Prop where
  height : c.m = rows.length
  width : c.n = p.width
  equalities : c.equalities = p.equalityCount
  order : c.order = p.order
  cost : ∀ j < p.width, c.costAt j = -assigned (p.columns p.metric) j
  coefficient : ∀ i (hi : i < rows.length), ∀ j < p.width,
    c.coefficientAt i j = assigned rows[i].columns j
  bound : ∀ i (hi : i < rows.length), c.boundAt i = rows[i].bound

theorem assigned_neg (columns : List (ℕ × ℝ)) (j : ℕ) :
    assigned (columns.map fun (c, q) => (c, -q)) j = -assigned columns j := by
  induction columns using List.reverseRecOn with
  | nil => simp [assigned]
  | append_singleton columns column ih =>
    rw [List.map_append, List.map_singleton, assigned_concat, assigned_concat, ih]
    exact (apply_ite Neg.neg _ _ _).symm

theorem exists_lowerRows? {p : Program ℝ} {rows : List (Row ℝ)}
    (hCost : ∀ column ∈ p.columns p.metric, column.1 < p.width)
    (hRows : ∀ row ∈ rows, ∀ column ∈ row.columns, column.1 < p.width)
    (hCount : p.equalityCount ≤ rows.length) :
    ∃ c, p.lowerRows? rows = some c ∧ p.Lowers rows c := by
  unfold lowerRows?
  rw [dif_pos ⟨by simpa using hCost, by simpa using hRows, hCount⟩]
  refine ⟨_, rfl, rfl, rfl, rfl, rfl, ?_, ?_, ?_⟩
  · intro j hj
    simp [ConicData.costAt, hj, assigned_neg]
  · intro i hi j hj
    simp [ConicData.coefficientAt, hi, hj]
  · intro i hi
    simp [ConicData.boundAt, hi]

theorem sum_assigned {columns : List (ℕ × ℝ)} {n : ℕ} (hNodup : (columns.map (·.1)).Nodup)
    (hInside : ∀ column ∈ columns, column.1 < n) (x : List ℝ) :
    ∑ j ∈ Finset.range n, assigned columns j * x.getD j 0 =
      (columns.map fun column => column.2 * x.getD column.1 0).sum := by
  induction columns using List.reverseRecOn with
  | nil => simp [assigned]
  | append_singleton columns last ih =>
    have hLast : last.1 ∈ Finset.range n := Finset.mem_range.mpr (hInside last (by simp))
    rw [List.map_append, List.nodup_append] at hNodup
    obtain ⟨hInit, -, hDisjoint⟩ := hNodup
    have hZero : assigned columns last.1 = 0 := by
      apply assigned_eq_zero
      intro column hColumn
      exact hDisjoint _ (List.mem_map_of_mem hColumn) _ (by simp)
    have hTerm (j : ℕ) : assigned (columns ++ [last]) j * x.getD j 0 =
        assigned columns j * x.getD j 0 + if last.1 = j then last.2 * x.getD last.1 0 else 0 := by
      rw [assigned_concat]
      by_cases h : last.1 = j
      · rw [if_pos h, if_pos h, ← h, hZero, zero_mul, zero_add]
      · rw [if_neg h, if_neg h, add_zero]
    simp only [hTerm]
    rw [Finset.sum_add_distrib, ih hInit fun column h => hInside column (List.mem_append_left _ h),
      Finset.sum_ite_eq, if_pos hLast, List.map_append, List.sum_append, List.map_singleton,
      List.sum_singleton]

end Rows

section Unknowns

/-- The solution holds the unknowns for which a vector over the columns stands. -/
structure Reads (p : Program ℝ) (x : List ℝ) (s : Solution ℝ) : Prop where
  gram : p.gramOf? x = some s.gram
  values : (p.valuesOf? x).map p.values.zip = some s.values

variable {p : Program ℝ} {x : List ℝ} {s : Solution ℝ}

theorem Reads.gramEntry_eq (h : p.Reads x s) (hx : x.length = p.width) (pair : BasisPair) :
    s.gramEntry pair = (unscale (x.take p.packed)).getD pair.slot 0 := by
  have hGram := h.gram
  rw [gramOf?_eq hx] at hGram
  rw [Solution.gramEntry, ← Option.some.inj hGram, zero_real]

theorem Reads.valueOf_eq (h : p.Reads x s) (hx : x.length = p.width) {k : ValueIndex}
    (hk : k ∈ p.values) : s.valueOf k = x.getD (p.valueColumn k) 0 := by
  have hValues := h.values
  rw [valuesOf?_eq hx] at hValues
  rw [Solution.valueOf, ← Option.some.inj hValues, lookup_zip hk, zero_real, List.getElem?_drop,
    List.getD_eq_getElem?_getD, valueColumn]

theorem eval_eq_total (s : Solution ℝ) (e : Expression ℝ) :
    s.eval e = e.constant + (e.gram.total s.gramEntry + e.values.total s.valueOf) := by
  rw [Solution.eval, Expression.evalAt_eq_total, add_assoc]

theorem Reads.sum_columns (h : p.Reads x s) (hx : x.length = p.width) {e : Expression ℝ}
    (he : e.Canonical) (hBelow : e.GramBelow p.order) (hCovers : p.Covers e) :
    ((p.columns e).map fun column => column.2 * x.getD column.1 0).sum =
      e.gram.total s.gramEntry + e.values.total s.valueOf := by
  rw [columns_eq hCovers, List.map_append, List.sum_append, List.map_map, List.map_map]
  congr 2
  · apply List.map_congr_left
    intro term hTerm
    have hSlot : term.1.slot < p.packed := slot_lt_packed hBelow hTerm
    rw [h.gramEntry_eq hx, getD_unscale _ (he.upper term hTerm), getD_take x hSlot]
    simp only [Function.comp_apply, scaledCoefficient]
    split
    · rfl
    · rw [sqrtTwo_real]
      ring
  · apply List.map_congr_left
    intro term hTerm
    rw [h.valueOf_eq hx (hCovers term hTerm)]
    rfl

theorem Reads.metricLinear_eq (h : p.Reads x s) (hx : x.length = p.width)
    (hMetric : p.metric.Canonical) (hBelow : p.metric.GramBelow p.order) :
    p.metricLinear x + p.metric.constant = s.eval p.metric := by
  have hSum := h.sum_columns hx hMetric hBelow p.covers_metric
  simp only [metricLinear, sum_real, zero_real]
  rw [hSum, eval_eq_total, add_comm]

noncomputable def unknowns? (p : Program ℝ) (x : List ℝ) :
    Option (SquareMatrix p.order × List ℝ) := do
  return (ofPacked p.order (← p.gramOf? x), ← p.valuesOf? x)

theorem unknowns?_eq (hx : x.length = p.width) :
    p.unknowns? x = some (ofPacked p.order (unscale (x.take p.packed)), x.drop p.packed) := by
  simp [unknowns?, gramOf?_eq hx, valuesOf?_eq hx]

/-- A vector over the columns is a symmetric matrix with a list of function values. -/
theorem bijOn_unknowns? (p : Program ℝ) :
    Set.BijOn p.unknowns? {x | x.length = p.width}
      {u | ∃ M F, u = some (M, F) ∧ M.IsSymm ∧ F.length = p.values.length} := by
  have hTake {x : List ℝ} (hx : x.length = p.width) : (x.take p.packed).length = p.packed := by
    simp [hx, width]
  refine ⟨?_, ?_, ?_⟩
  · intro x (hx : x.length = p.width)
    exact ⟨_, _, unknowns?_eq hx, ofPacked_isSymm _ _, length_drop_packed hx⟩
  · intro x (hx : x.length = p.width) y (hy : y.length = p.width) hxy
    rw [unknowns?_eq hx, unknowns?_eq hy, Option.some.injEq, Prod.mk.injEq] at hxy
    rw [← List.take_append_drop p.packed x, ← List.take_append_drop p.packed y, hxy.2,
      ← scaledPacking_ofPacked_unscale (hTake hx), ← scaledPacking_ofPacked_unscale (hTake hy)]
    exact congrArg (scaledPacking · ++ y.drop p.packed) hxy.1
  · rintro _ ⟨M, F, rfl, hM, hF⟩
    have hPacking : (scaledPacking M).length = p.packed := length_scaledPacking M
    have hLength : (scaledPacking M ++ F).length = p.width := by
      rw [List.length_append, hPacking, hF, width]
    refine ⟨scaledPacking M ++ F, hLength, ?_⟩
    rw [unknowns?_eq hLength, List.take_left' hPacking, List.drop_left' hPacking,
      unscale_scaledPacking, ofPacked_pack hM]

end Unknowns

section Exact

variable {p : Program ℝ} {c : ConicProgram ℝ} {x : List ℝ} {s : Solution ℝ}

theorem WellFormed.row (hp : p.WellFormed) {row : ConstraintId × StoredConstraint ℝ}
    (h : row ∈ p.rows) :
    row.2.constraint.lhs.Canonical ∧ row.2.constraint.lhs.GramBelow p.order :=
  hp.stored row.2 (entry_mem_of_mem_rows h)

theorem exists_lower? (hp : p.WellFormed) :
    ∃ c, p.lower? = some c ∧ p.Lowers p.constraintRows c := by
  apply exists_lowerRows?
  · exact columns_lt hp.metric.2 p.covers_metric
  · exact constraintRows_inside fun row hRow => (hp.row hRow).2
  · exact p.equalityCount_le

theorem Lowers.packed_eq {rows : List (Row ℝ)} (hc : p.Lowers rows c) : c.packed = p.packed := by
  rw [c.packed_eq, hc.order, packed]

theorem Lowers.height_eq (hc : p.Lowers p.constraintRows c) : c.m = p.rows.length := by
  rw [hc.height, length_constraintRows]

theorem Lowers.sum_row (hc : p.Lowers p.constraintRows c) (hp : p.WellFormed)
    (hx : x.length = p.width) (hs : p.Reads x s) {i : ℕ} (hi : i < p.rows.length) :
    ∑ j ∈ Finset.range c.n, c.stackedAt i j * x.getD j 0 =
      s.eval p.rows[i].2.constraint.lhs - p.rows[i].2.constraint.lhs.constant := by
  have hRow : p.rows[i] ∈ p.rows := List.getElem_mem hi
  obtain ⟨hCanonical, hBelow⟩ := hp.row hRow
  have hCovers := covers_row hRow
  have hEntry : ∀ j ∈ Finset.range c.n, c.stackedAt i j * x.getD j 0 =
      assigned (p.columns p.rows[i].2.constraint.lhs) j * x.getD j 0 := by
    intro j hj
    have hj' : j < p.width := hc.width ▸ Finset.mem_range.mp hj
    have hi' : i < p.constraintRows.length := by rwa [length_constraintRows]
    rw [ConicData.stackedAt, if_pos (hc.height_eq ▸ hi), hc.coefficient i hi' j hj']
    simp [constraintRows]
  rw [Finset.sum_congr rfl hEntry, hc.width, sum_assigned (columns_nodup hCanonical hBelow hCovers)
    (columns_lt hBelow hCovers), hs.sum_columns hx hCanonical hBelow hCovers,
    eval_eq_total, add_sub_cancel_left]

theorem Lowers.boundAt_row (hc : p.Lowers p.constraintRows c) {i : ℕ} (hi : i < p.rows.length) :
    c.boundAt i = -p.rows[i].2.constraint.lhs.constant := by
  rw [hc.bound i (by rwa [length_constraintRows])]
  simp [constraintRows]

theorem Lowers.sum_cost (hc : p.Lowers p.constraintRows c) (hp : p.WellFormed)
    (hx : x.length = p.width) (hs : p.Reads x s) :
    ∑ j ∈ Finset.range c.n, c.costAt j * x.getD j 0 = p.metric.constant - s.eval p.metric := by
  have hEntry : ∀ j ∈ Finset.range c.n, c.costAt j * x.getD j 0 =
      -(assigned (p.columns p.metric) j * x.getD j 0) := by
    intro j hj
    rw [hc.cost j (hc.width ▸ Finset.mem_range.mp hj), neg_mul]
  rw [Finset.sum_congr rfl hEntry, Finset.sum_neg_distrib, hc.width,
    sum_assigned (columns_nodup hp.metric.1 hp.metric.2 p.covers_metric)
      (columns_lt hp.metric.2 p.covers_metric),
    hs.sum_columns hx hp.metric.1 hp.metric.2 p.covers_metric, eval_eq_total]
  ring

theorem metricLinear_eq (hp : p.WellFormed) (hx : x.length = p.width) (hs : p.Reads x s) :
    p.metricLinear x + p.metric.constant = s.eval p.metric :=
  hs.metricLinear_eq hx hp.metric.1 hp.metric.2

/-- The slacks of a vector: the negated values of the rows, then the packed Gram matrix. -/
theorem Lowers.slack_eq (hc : p.Lowers p.constraintRows c) (hp : p.WellFormed)
    (hx : x.length = p.width) (hs : p.Reads x s) {ax b : List ℝ}
    (hax : c.constraintOperator.product? x = some ax) (hb : c.boundOperator.product? [1] = some b) :
    List.zipWith (· - ·) b ax =
      p.rows.map (fun row => -s.eval row.2.constraint.lhs) ++ x.take p.packed := by
  rw [c.constraintOperator_product? (hx.trans hc.width.symm)] at hax
  rw [c.boundOperator_product?] at hb
  rw [← Option.some.inj hax, ← Option.some.inj hb, List.zipWith_map, List.zipWith_self,
    hc.height_eq, hc.packed_eq, map_range_add]
  congr 1
  · apply List.ext_getElem (by simp)
    intro i hi _
    have hi' : i < p.rows.length := by simpa using hi
    rw [List.getElem_map, List.getElem_range, hc.boundAt_row hi', hc.sum_row hp hx hs hi',
      List.getElem_map]
    ring
  · rw [eq_map_range_getD (v := x.take p.packed) (n := p.packed)
      (by simp [hx, p.packed_le_width])]
    apply List.map_congr_left
    intro i hi
    have hi' : i < p.packed := List.mem_range.mp hi
    rw [getD_take x hi', ← hc.height_eq, c.boundAt_of_le (Nat.le_add_right _ _),
      c.sum_stackedAt_packed (hc.packed_eq ▸ hi'), zero_sub, neg_neg]

theorem sense_of_lt {α : Type} {p : Program α} {i : ℕ} (hi : i < p.rows.length)
    (h : i < p.equalityCount) : p.rows[i].2.constraint.sense = .equal := by
  have hRow : p.rows[i] = (p.store.active .equal)[i] := List.getElem_append_left h
  rw [hRow]
  exact (Store.mem_active_iff.mp (List.getElem_mem h)).2.1

theorem sense_of_le {α : Type} {p : Program α} {i : ℕ} (hi : i < p.rows.length)
    (h : p.equalityCount ≤ i) : p.rows[i].2.constraint.sense = .lessEq := by
  have hBound : i - p.equalityCount < (p.store.active .lessEq).length := by
    have hLength := p.length_rows
    rw [inequalityCount] at hLength
    omega
  have hRow : p.rows[i] = (p.store.active .lessEq)[i - p.equalityCount] :=
    List.getElem_append_right h
  rw [hRow]
  exact (Store.mem_active_iff.mp (List.getElem_mem hBound)).2.1

theorem rows_holdAt_iff (p : Program ℝ) (s : Solution ℝ) :
    (∀ row ∈ p.rows, row.2.constraint.HoldsAt s.gramEntry s.valueOf) ↔
      (∀ i (hi : i < p.rows.length), i < p.equalityCount →
        -s.eval p.rows[i].2.constraint.lhs = 0) ∧
      ∀ i (hi : i < p.rows.length), p.equalityCount ≤ i →
        0 ≤ -s.eval p.rows[i].2.constraint.lhs := by
  rw [List.forall_mem_iff_forall_getElem]
  constructor
  · intro h
    refine ⟨fun i hi hLow => ?_, fun i hi hHigh => ?_⟩
    · rw [neg_eq_zero]
      exact (Constraint.holdsAt_equal _ _ (sense_of_lt hi hLow)).mp (h i hi)
    · rw [neg_nonneg]
      exact (Constraint.holdsAt_lessEq _ _ (sense_of_le hi hHigh)).mp (h i hi)
  · rintro ⟨hEqualities, hInequalities⟩ i hi
    rcases Nat.lt_or_ge i p.equalityCount with hLow | hHigh
    · rw [Constraint.holdsAt_equal _ _ (sense_of_lt hi hLow)]
      exact neg_eq_zero.mp (hEqualities i hi hLow)
    · rw [Constraint.holdsAt_lessEq _ _ (sense_of_le hi hHigh)]
      exact neg_nonneg.mp (hInequalities i hi hHigh)

theorem exists_posSemidef_iff {d : ℕ} {v : List ℝ} (hv : v.length = triangular d) :
    (∃ M : SquareMatrix d, M.PosSemidef ∧ v = scaledPacking M) ↔
      (ofPacked d (unscale v)).PosSemidef := by
  constructor
  · rintro ⟨M, hM, rfl⟩
    rwa [unscale_scaledPacking, ofPacked_pack (isSymm_of_posSemidef hM)]
  · intro h
    exact ⟨_, h, (scaledPacking_ofPacked_unscale hv).symm⟩

theorem Lowers.inCone_slack_iff (hc : p.Lowers p.constraintRows c) (hx : x.length = p.width)
    (hs : p.Reads x s) :
    c.InCone (p.rows.map (fun row => -s.eval row.2.constraint.lhs) ++ x.take p.packed) ↔
      (ofPacked p.order s.gram).PosSemidef ∧
        ∀ row ∈ p.rows, row.2.constraint.HoldsAt s.gramEntry s.valueOf := by
  have hTake : (x.take p.packed).length = triangular p.order := by
    rw [List.length_take, hx]
    exact min_eq_left p.packed_le_width
  have hGram : s.gram = unscale (x.take p.packed) := by
    have hGram := hs.gram
    rw [gramOf?_eq hx] at hGram
    exact (Option.some.inj hGram).symm
  have hEntry {i : ℕ} (hi : i < p.rows.length) :
      (p.rows.map (fun row => -s.eval row.2.constraint.lhs) ++ x.take p.packed).getD i 0 =
        -s.eval p.rows[i].2.constraint.lhs := by
    rw [List.getD_append _ _ _ _ (by simpa using hi), List.getD_eq_getElem _ _ (by simpa using hi),
      List.getElem_map]
  have hDrop : (p.rows.map (fun row => -s.eval row.2.constraint.lhs) ++ x.take p.packed).drop
      p.rows.length = x.take p.packed := by
    rw [List.drop_left' (List.length_map _)]
  rw [c.inCone_iff (by simp [hc.height_eq, hc.packed_eq, hx, p.packed_le_width]), hc.height_eq,
    hc.order, hc.equalities, hDrop, exists_posSemidef_iff hTake, ← hGram, rows_holdAt_iff,
    and_comm (a := (ofPacked p.order s.gram).PosSemidef), ← and_assoc]
  have hCount : p.equalityCount ≤ p.rows.length := p.length_rows ▸ Nat.le_add_right _ _
  refine and_congr_left fun _ => and_congr ?_ ?_
  · constructor
    · intro h i hi hLow
      rw [← hEntry hi]
      exact h i hLow
    · intro h i hLow
      rw [hEntry (hLow.trans_le hCount)]
      exact h i _ hLow
  · constructor
    · intro h i hi hHigh
      rw [← hEntry hi]
      exact h i hi hHigh
    · intro h i hi hHigh
      rw [hEntry hi]
      exact h i hi hHigh

/-- The lowered program is exact. On every vector of the columns the rows compute the constraints,
the last slacks are the packed Gram matrix, and the cost is the negated metric; a vector has slacks
in the cone exactly when its unknowns are feasible. Vectors and unknowns correspond one to one. -/
theorem lower?_exact (p : Program ℝ) (hp : p.WellFormed) :
    ∃ c, p.lower? = some c ∧
      (∀ x : List ℝ, x.length = p.width → ∃ gram values ax b cx,
        p.gramOf? x = some gram ∧ p.valuesOf? x = some values ∧
        c.constraintOperator.product? x = some ax ∧ c.boundOperator.product? [1] = some b ∧
        c.costOperator.transposeProduct? x = some [cx] ∧
        ∀ s : Solution ℝ, s.gram = gram → s.values = p.values.zip values →
          (∀ i (hi : i < p.rows.length),
            ax.getD i 0 - b.getD i 0 = s.eval p.rows[i].2.constraint.lhs) ∧
          (List.zipWith (· - ·) b ax).drop p.rows.length = x.take p.packed ∧
          -cx + p.metric.constant = p.metricLinear x + p.metric.constant ∧
          p.metricLinear x + p.metric.constant = s.eval p.metric ∧
          (c.InCone (List.zipWith (· - ·) b ax) ↔
            (ofPacked p.order gram).PosSemidef ∧
              ∀ entry ∈ p.store.entries, entry.constraint.lhs.isConstant = false →
                entry.constraint.HoldsAt s.gramEntry s.valueOf)) ∧
      Set.BijOn p.unknowns? {x | x.length = p.width}
        {u | ∃ M F, u = some (M, F) ∧ M.IsSymm ∧ F.length = p.values.length} := by
  obtain ⟨c, hLower, hc⟩ := exists_lower? hp
  refine ⟨c, hLower, fun x hx => ?_, bijOn_unknowns? p⟩
  have hxn : x.length = c.n := hx.trans hc.width.symm
  have hax := c.constraintOperator_product? hxn
  have hb := c.boundOperator_product?
  refine ⟨_, _, _, _, _, gramOf?_eq hx, valuesOf?_eq hx, hax, hb,
    c.costOperator_transposeProduct? hxn, fun s hGram hValues => ?_⟩
  have hs : p.Reads x s :=
    ⟨by rw [gramOf?_eq hx, hGram], by rw [valuesOf?_eq hx, hValues, Option.map_some]⟩
  have hSlack := hc.slack_eq hp hx hs hax hb
  refine ⟨fun i hi => ?_, ?_, ?_, metricLinear_eq hp hx hs, ?_⟩
  · have hRange : i < c.m + c.packed := hc.height_eq ▸ Nat.lt_add_right _ hi
    rw [getD_map_range _ hRange, getD_map_range _ hRange, hc.sum_row hp hx hs hi, hc.boundAt_row hi]
    ring
  · rw [hSlack, List.drop_left' (List.length_map _)]
  · rw [hc.sum_cost hp hx hs, metricLinear_eq hp hx hs]
    ring
  · rw [hSlack, hc.inCone_slack_iff hx hs, forall_rows_iff (P := fun entry =>
      entry.constraint.HoldsAt s.gramEntry s.valueOf), hGram]

/-- Two basis vectors with inner product one, and a value that is at most zero. -/
noncomputable def pairProgram : Program ℝ where
  store := ⟨[⟨⟨⟨[(⟨3⟩, 1)], [], 0⟩, .lessEq⟩, .initialCondition⟩,
    ⟨⟨.const (-1), .lessEq⟩, .initialCondition⟩,
    ⟨⟨⟨[], [(⟨⟨0⟩, ⟨1⟩⟩, 1)], -1⟩, .equal⟩, .initialCondition⟩]⟩
  metric := ⟨[(⟨3⟩, 1)], [(⟨⟨0⟩, ⟨1⟩⟩, 1)], 1⟩
  order := 2

theorem pairProgram_wellFormed : pairProgram.WellFormed := by
  constructor
  · refine ⟨⟨?_, ?_, ?_⟩, ?_⟩ <;>
      simp [pairProgram, Terms.canonical_cons_iff, Terms.canonical_nil, BasisIndex.le_iff,
        Expression.GramBelow]
  · intro entry hEntry
    simp only [pairProgram, List.mem_cons, List.not_mem_nil, or_false] at hEntry
    rcases hEntry with rfl | rfl | rfl <;> refine ⟨⟨?_, ?_, ?_⟩, ?_⟩ <;>
      simp [pairProgram, Expression.const, Terms.canonical_cons_iff, Terms.canonical_nil,
        BasisIndex.le_iff, Expression.GramBelow]

theorem lower?_exact_pair : pairProgram.WellFormed ∧ ∃ c, pairProgram.lower? = some c ∧
    ∃ ax b, c.constraintOperator.product? [1, √2, 1, 1 / 4] = some ax ∧
      c.boundOperator.product? [1] = some b ∧ ax.getD 0 0 - b.getD 0 0 = 0 ∧
      ax.getD 1 0 - b.getD 1 0 = 1 / 4 ∧
      pairProgram.metricLinear [1, √2, 1, 1 / 4] + 1 = 9 / 4 := by
  have hGram : pairProgram.gramOf? [1, √2, 1, 1 / 4] = some [1, √2 / √2, 1] := by
    rw [gramOf?_eq rfl]
    rfl
  have hValues : pairProgram.valuesOf? [1, √2, 1, 1 / 4] = some [1 / 4] := by
    rw [valuesOf?_eq rfl]
    rfl
  obtain ⟨c, hLower, hExact, -⟩ := lower?_exact pairProgram pairProgram_wellFormed
  refine ⟨pairProgram_wellFormed, c, hLower, ?_⟩
  obtain ⟨gram, values, ax, b, cx, hG, hV, hax, hb, -, hs⟩ := hExact [1, √2, 1, 1 / 4] rfl
  cases hGram.symm.trans hG
  cases hValues.symm.trans hV
  obtain ⟨hRow, -, -, hMetric, -⟩ := hs
    ⟨0, 2, [1, √2 / √2, 1], [(⟨3⟩, 1 / 4)], [], [], [], none⟩ rfl rfl
  have hEntry : √(2 : ℝ) / √2 = 1 := div_self sqrt_two_ne_zero
  refine ⟨ax, b, hax, hb, (hRow 0 (by decide)).trans ?_, (hRow 1 (by decide)).trans ?_,
    hMetric.trans ?_⟩
  · change Solution.eval _ ⟨[], [(⟨⟨0⟩, ⟨1⟩⟩, 1)], -1⟩ = 0
    norm_num [Solution.eval, Expression.evalAt, Solution.gramEntry, BasisPair.slot, triangular,
      hEntry]
  · change Solution.eval _ ⟨[(⟨3⟩, 1)], [], 0⟩ = 1 / 4
    norm_num [Solution.eval, Expression.evalAt, Solution.valueOf]
  · norm_num [Solution.eval, Expression.evalAt, Solution.gramEntry, Solution.valueOf,
      BasisPair.slot, triangular, pairProgram, hEntry]

end Exact

end Program

end PerformanceEstimation
