import Mathlib
import PerformanceEstimation.Proofs.Algebra.NormalForm
import PerformanceEstimation.Proofs.Algebra.Sums
import PerformanceEstimation.Proofs.Algebra.Supports
import PerformanceEstimation.Solution

/-!
# Points of the worst case

A point is realized from the columns of a square root of the Gram matrix, an expression is evaluated
from the packed entries. For an exact square root of a positive semidefinite Gram matrix the two
agree: the columns are vectors whose inner products are the entries (`Solution.gram_columns`), so
they are a `Realization`, in which evaluation is already known to be what it is called.
-/

set_option autoImplicit false

namespace PerformanceEstimation

/-- The function returns the packing of a symmetric square root of a positive semidefinite matrix. -/
def ExactSquareRoot (squareRoot : List ℝ → List ℝ) : Prop :=
  ∀ d packed, packed.length = triangular d → (ofPacked d packed).PosSemidef →
    ∃ R : SquareMatrix d, R.IsSymm ∧ R * R = ofPacked d packed ∧ squareRoot packed = pack R

section Root

open scoped MatrixOrder

noncomputable def matrixSquareRoot (packed : List ℝ) : List ℝ :=
  match orderOfPacked? packed.length with
  | none => []
  | some d => pack (CFC.sqrt (ofPacked d packed))

theorem matrixSquareRoot_exact : ExactSquareRoot matrixSquareRoot := by
  intro d packed hLength hPosSemidef
  refine ⟨CFC.sqrt (ofPacked d packed), ?_, ?_, ?_⟩
  · exact isSymm_of_posSemidef (Matrix.nonneg_iff_posSemidef.mp (CFC.sqrt_nonneg _))
  · exact CFC.sqrt_mul_sqrt_self _ hPosSemidef.nonneg
  · rw [matrixSquareRoot, hLength, orderOfPacked?_triangular]

theorem matrixSquareRoot_pack {d : ℕ} {R : SquareMatrix d} (hR : R.PosSemidef) :
    matrixSquareRoot (pack (R * R)) = pack R := by
  have hSymm : (R * R).IsSymm := by
    rw [Matrix.IsSymm, Matrix.transpose_mul, isSymm_of_posSemidef hR]
  rw [matrixSquareRoot, length_pack, orderOfPacked?_triangular]
  change pack (CFC.sqrt (ofPacked d (pack (R * R)))) = _
  rw [ofPacked_pack hSymm, CFC.sqrt_unique rfl (Matrix.nonneg_iff_posSemidef.mpr hR)]

end Root

attribute [local instance] atLeastTwo_two

namespace Solution

noncomputable def vector (squareRoot : List ℝ → List ℝ) (s : Solution ℝ) (x : Point ℝ) :
    EuclideanSpace ℝ (Fin s.order) :=
  WithLp.toLp 2 fun r => (s.evalPoint squareRoot x).getD r 0

/-- The basis vectors as columns of the square root, those beyond the matrix as zero. -/
noncomputable def columns (squareRoot : List ℝ → List ℝ) (s : Solution ℝ) :
    Realization (EuclideanSpace ℝ (Fin s.order)) where
  basis k := WithLp.toLp 2 fun r =>
    if k.pos < s.order then (squareRoot s.gram).getD (gramSlot ⟨r⟩ k) 0 else 0
  value := s.valueOf

section Coordinates

variable (squareRoot : List ℝ → List ℝ) (s : Solution ℝ)

theorem length_evalPoint (x : Point ℝ) : (s.evalPoint squareRoot x).length = s.order := by
  rw [evalPoint, List.length_map, List.length_range]

theorem point_columns_apply (x : Point ℝ) (r : Fin s.order) :
    (s.columns squareRoot).point x r = x.terms.total fun k => (s.columns squareRoot).basis k r := by
  unfold Realization.point Terms.total
  induction x.terms with
  | nil => rfl
  | cons term terms ih =>
    rw [List.map_cons, List.map_cons, List.sum_cons, List.sum_cons, ← ih]
    rfl

theorem vector_eq_point_columns (x : Point ℝ) :
    s.vector squareRoot x = (s.columns squareRoot).point x := by
  -- basis vectors beyond the matrix do not count on either side
  ext r
  have hRange : (List.range s.order)[(r : ℕ)]? = some (r : ℕ) := List.getElem?_range r.isLt
  change (s.evalPoint squareRoot x).getD r 0 = _
  rw [evalPoint, List.getD_eq_getElem?_getD, List.getElem?_map, hRange, Option.map_some,
    Option.getD_some, Point.evalAt_eq_total, point_columns_apply, zero_real]
  exact Terms.total_filter_key _ (·.pos < s.order) x.terms

end Coordinates

section Gram

variable {squareRoot : List ℝ → List ℝ} (hRoot : ExactSquareRoot squareRoot) {s : Solution ℝ}
  (hLength : s.gram.length = triangular s.order) (hGram : (ofPacked s.order s.gram).PosSemidef)

include hRoot hLength hGram

/-- An upper entry of the Gram matrix is the inner product of two columns of its square root. -/
theorem gram_columns {pair : BasisPair} (hPair : pair ∈ upperTriangle s.order) :
    (s.columns squareRoot).gram pair = s.gramEntry pair := by
  obtain ⟨R, hSymm, hSquare, hPacked⟩ := hRoot s.order s.gram hLength hGram
  obtain ⟨hUpper, hCol⟩ := mem_upperTriangle.mp hPair
  have hRow : pair.row.pos < s.order := lt_of_le_of_lt hUpper hCol
  have hColumn {k : BasisIndex} (hk : k.pos < s.order) (r : Fin s.order) :
      (s.columns squareRoot).basis k r = R r ⟨k.pos, hk⟩ := by
    change (if k.pos < s.order then (squareRoot s.gram).getD (gramSlot ⟨r⟩ k) 0 else 0) = _
    rw [if_pos hk, hPacked]
    exact congrFun (congrFun (ofPacked_pack hSymm) r) ⟨k.pos, hk⟩
  calc (s.columns squareRoot).gram pair
    _ = ∑ r, R r ⟨pair.row.pos, hRow⟩ * R r ⟨pair.col.pos, hCol⟩ := by
        simp only [Realization.gram, PiLp.inner_apply, hColumn hRow, hColumn hCol,
          Real.inner_apply]
    _ = (R * R) ⟨pair.row.pos, hRow⟩ ⟨pair.col.pos, hCol⟩ := by
        -- a column of the symmetric root is also its row
        rw [Matrix.mul_apply]
        exact Finset.sum_congr rfl fun r _ => by rw [hSymm.apply]
    _ = s.gramEntry pair := by
        rw [hSquare, ofPacked, Matrix.of_apply, gramSlot, BasisPair.of_row_col hUpper, gramEntry,
          zero_real]

theorem eval_inner_eq {p q : Point ℝ} (hp : p.Below s.order) (hq : q.Below s.order) :
    s.eval (p.inner q) = inner ℝ (s.vector squareRoot p) (s.vector squareRoot q) := by
  have hKeys : ∀ term ∈ (p.inner q).gram, term.1 ∈ upperTriangle s.order :=
    Point.forall_key_inner (· ∈ upperTriangle s.order) fun i hi j hj =>
      of_mem_upperTriangle ⟨i.1.pos, hp i hi⟩ ⟨j.1.pos, hq j hj⟩
  have hTotal : (p.inner q).gram.total s.gramEntry =
      (p.inner q).gram.total (s.columns squareRoot).gram :=
    congrArg List.sum (List.map_congr_left fun term hTerm => by
      rw [gram_columns hRoot hLength hGram (hKeys term hTerm)])
  rw [vector_eq_point_columns, vector_eq_point_columns, ← Realization.eval_inner, eval,
    Realization.eval, Expression.evalAt_eq_total, Expression.evalAt_eq_total, hTotal]
  rfl

theorem eval_normSq_eq {p : Point ℝ} (hp : p.Below s.order) :
    s.eval p.normSq = ‖s.vector squareRoot p‖ ^ 2 :=
  (eval_inner_eq hRoot hLength hGram hp hp).trans (real_inner_self_eq_norm_sq _)

theorem eval_coincide_eq {p q : Point ℝ} (hp : p.Below s.order) (hq : q.Below s.order) :
    s.eval (p.coincide q).lhs = ‖s.vector squareRoot p - s.vector squareRoot q‖ ^ 2 := by
  change s.eval ((p - q).normSq - 0) = _
  rw [Expression.sub_zero, eval_normSq_eq hRoot hLength hGram (hp.sub hq),
    vector_eq_point_columns, vector_eq_point_columns, vector_eq_point_columns,
    Realization.point_sub]

end Gram

theorem vector_inj {squareRoot : List ℝ → List ℝ} {s : Solution ℝ} {p q : Point ℝ} :
    s.vector squareRoot p = s.vector squareRoot q ↔
      s.evalPoint squareRoot p = s.evalPoint squareRoot q := by
  constructor
  · intro h
    have hp := s.length_evalPoint squareRoot p
    have hq := s.length_evalPoint squareRoot q
    refine List.ext_getElem (hp.trans hq.symm) fun r hr hr' => ?_
    have hCoordinate : (s.evalPoint squareRoot p).getD r 0 = (s.evalPoint squareRoot q).getD r 0 :=
      congrFun (congrArg WithLp.ofLp h) ⟨r, hp ▸ hr⟩
    rwa [List.getD_eq_getElem _ _ hr, List.getD_eq_getElem _ _ hr'] at hCoordinate
  · intro h
    rw [vector, vector, h]

/-- The realized points of a worst case whose Gram matrix is positive semidefinite. All of them have
as many coordinates as there are basis vectors, their inner products and norms are those to which
the symbols evaluate, realizing is linear, and the constraint that two points coincide evaluates to
zero exactly when their coordinates are the same. -/
theorem evalPoint_realizes {squareRoot : List ℝ → List ℝ} (hRoot : ExactSquareRoot squareRoot)
    {s : Solution ℝ} (hLength : s.gram.length = triangular s.order)
    (hGram : (ofPacked s.order s.gram).PosSemidef) :
    (∀ p, (s.evalPoint squareRoot p).length = s.order) ∧
    (∀ p q : Point ℝ, p.Below s.order → q.Below s.order →
      inner ℝ (s.vector squareRoot p) (s.vector squareRoot q) = s.eval (p.inner q)) ∧
    (∀ p : Point ℝ, p.Below s.order → ‖s.vector squareRoot p‖ ^ 2 = s.eval p.normSq) ∧
    ((∀ p c q, s.vector squareRoot (p.axpy c q) =
        s.vector squareRoot p + c • s.vector squareRoot q) ∧
      (∀ p q, s.vector squareRoot (p + q) = s.vector squareRoot p + s.vector squareRoot q) ∧
      ∀ (c : ℝ) p, s.vector squareRoot (c * p) = c • s.vector squareRoot p) ∧
    ∀ p q : Point ℝ, p.Below s.order → q.Below s.order →
      (s.eval (p.coincide q).lhs = 0 ↔ s.evalPoint squareRoot p = s.evalPoint squareRoot q) := by
  refine ⟨s.length_evalPoint squareRoot, fun p q hp hq => ?_, fun p hp => ?_,
    ⟨fun p c q => ?_, fun p q => ?_, fun c p => ?_⟩, fun p q hp hq => ?_⟩
  · exact (eval_inner_eq hRoot hLength hGram hp hq).symm
  · exact (eval_normSq_eq hRoot hLength hGram hp).symm
  · simp only [vector_eq_point_columns, Realization.point_axpy]
  · simp only [vector_eq_point_columns, Realization.point_add]
  · simp only [vector_eq_point_columns, Realization.point_mul]
  · rw [eval_coincide_eq hRoot hLength hGram hp hq, sq_eq_zero_iff, norm_eq_zero, sub_eq_zero,
      vector_inj]

section Example

noncomputable def acuteRoot : SquareMatrix 2 :=
  !![2, 1; 1, 2]

/-- Two basis vectors of equal length at an acute angle. -/
noncomputable def acuteSolution : Solution ℝ :=
  ⟨0, 2, pack (acuteRoot * acuteRoot), [], [], [], [], none⟩

noncomputable def acutePoint : Point ℝ :=
  ⟨[(⟨0⟩, 2), (⟨1⟩, -1)]⟩

theorem posSemidef_acuteRoot : acuteRoot.PosSemidef := by
  have hSum : acuteRoot = 1 + Matrix.vecMulVec (fun _ => 1) (star fun _ => 1) := by
    ext i j
    fin_cases i <;> fin_cases j <;> norm_num [acuteRoot, Matrix.vecMulVec]
  rw [hSum]
  exact Matrix.PosSemidef.one.add (Matrix.posSemidef_vecMulVec_self_star _)

theorem posSemidef_acuteSolution : (ofPacked 2 acuteSolution.gram).PosSemidef := by
  have hSquare : (acuteRoot * acuteRoot).PosSemidef := by
    nth_rewrite 1 [← posSemidef_acuteRoot.isHermitian]
    exact Matrix.posSemidef_conjTranspose_mul_self acuteRoot
  rwa [acuteSolution, ofPacked_pack (isSymm_of_posSemidef hSquare)]

theorem evalPoint_acute :
    acuteSolution.evalPoint matrixSquareRoot acutePoint = [3, 0] ∧
      acuteSolution.evalPoint matrixSquareRoot (.ofBasis ⟨1⟩) = [1, 2] := by
  have hTriangle : upperTriangle 2 = [⟨⟨0⟩, ⟨0⟩⟩, ⟨⟨0⟩, ⟨1⟩⟩, ⟨⟨1⟩, ⟨1⟩⟩] := rfl
  have hRoot : matrixSquareRoot acuteSolution.gram = [2, 1, 2] := by
    rw [acuteSolution, matrixSquareRoot_pack posSemidef_acuteRoot, pack, hTriangle]
    simp [entryAt, acuteRoot]
  have hRange : List.range acuteSolution.order = [0, 1] := rfl
  have hSlots : gramSlot ⟨0⟩ ⟨0⟩ = 0 ∧ gramSlot ⟨0⟩ ⟨1⟩ = 1 ∧ gramSlot ⟨1⟩ ⟨0⟩ = 1 ∧
      gramSlot ⟨1⟩ ⟨1⟩ = 2 := by decide
  simp only [evalPoint, hRoot, hRange]
  constructor
  · simp [acuteSolution, acutePoint, Point.evalAt, hSlots]
    norm_num
  · simp [acuteSolution, Point.ofBasis, Point.evalAt, hSlots]

theorem evalPoint_realizes_acute :
    ExactSquareRoot matrixSquareRoot ∧ acuteSolution.gram.length = triangular 2 ∧
    (ofPacked 2 acuteSolution.gram).PosSemidef ∧ acutePoint.Below 2 ∧
    (Point.ofBasis ⟨1⟩ : Point ℝ).Below 2 ∧
    inner ℝ (acuteSolution.vector matrixSquareRoot acutePoint)
      (acuteSolution.vector matrixSquareRoot (.ofBasis ⟨1⟩)) =
        acuteSolution.eval (acutePoint.inner (.ofBasis ⟨1⟩)) ∧
    acuteSolution.eval (acutePoint.coincide (.ofBasis ⟨1⟩)).lhs ≠ 0 := by
  have hFirst : acutePoint.Below 2 := by
    simp [Point.Below, acutePoint]
  have hSecond : (Point.ofBasis ⟨1⟩ : Point ℝ).Below 2 := Point.below_ofBasis one_lt_two
  obtain ⟨-, hInner, -, -, hCoincide⟩ := evalPoint_realizes matrixSquareRoot_exact
    (s := acuteSolution) (length_pack _) posSemidef_acuteSolution
  refine ⟨matrixSquareRoot_exact, length_pack _, posSemidef_acuteSolution, hFirst, hSecond,
    hInner acutePoint (.ofBasis ⟨1⟩) hFirst hSecond, ?_⟩
  rw [Ne, hCoincide acutePoint (.ofBasis ⟨1⟩) hFirst hSecond, evalPoint_acute.1, evalPoint_acute.2]
  norm_num

end Example

end Solution

end PerformanceEstimation
