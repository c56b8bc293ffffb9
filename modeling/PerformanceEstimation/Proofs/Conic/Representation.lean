import Mathlib
import PerformanceEstimation.Proofs.Conic.Operators

/-!
# The matrices of a conic program

Each operator of a conic program acts by one matrix: the cost and the bounds by a column, and the
constraints by the rows stacked on the negated identity of the leading variables. Products from
either side and sums of absolute values are those of the matrix, so that the two products are
adjoint (`ofRows?_represents`). None of this asks how many leading variables there are, if any: that
they pack a matrix is left to the cone.
-/

set_option autoImplicit false

abbrev RealMatrix (m n : ℕ) := Matrix (Fin m) (Fin n) ℝ

namespace PerformanceEstimation

theorem map_range_eq_ofFn (f : ℕ → ℝ) (n : ℕ) :
    (List.range n).map f = List.ofFn fun i : Fin n => f i := by
  apply List.ext_getElem (by simp)
  intro i hi hi'
  simp

theorem ofFn_append {k l : ℕ} (y : Fin (k + l) → ℝ) :
    List.ofFn y =
      (List.ofFn fun i => y (Fin.castAdd l i)) ++ List.ofFn fun i => y (Fin.natAdd k i) :=
  List.ofFn_add

theorem getD_ofFn {n : ℕ} (x : Fin n → ℝ) (i : Fin n) : (List.ofFn x).getD i 0 = x i := by
  rw [List.getD_eq_getElem _ _ (by simp), List.getElem_ofFn]

theorem map_range_mulAdd {m n : ℕ} {M : RealMatrix m n} {f : ℕ → ℕ → ℝ}
    (hM : ∀ i j, M i j = f i j) (alpha beta : ℝ) (x : Fin n → ℝ) (y : Fin m → ℝ) :
    ((List.range m).map fun i => alpha * ∑ j ∈ Finset.range n, f i j * (List.ofFn x).getD j 0 +
      beta * (List.ofFn y).getD i 0) = List.ofFn (alpha • M.mulVec x + beta • y) := by
  rw [map_range_eq_ofFn]
  congr 1
  funext i
  have hSum : ∑ j ∈ Finset.range n, f i j * (List.ofFn x).getD j 0 = M.mulVec x i := by
    rw [Finset.sum_range]
    exact Finset.sum_congr rfl fun j _ => congrArg₂ (· * ·) (hM i j).symm (getD_ofFn x j)
  rw [hSum, getD_ofFn]
  rfl

namespace LinearOperator

/-- The operator acts by a matrix, which may have no rows or no columns. -/
structure Represents {m n : ℕ} (op : LinearOperator ℝ) (M : RealMatrix m n) : Prop where
  height : op.height = m
  width : op.width = n
  mulAdd? (alpha beta : ℝ) (x : Fin n → ℝ) (y : Fin m → ℝ) :
    op.mulAdd? alpha (List.ofFn x) beta (List.ofFn y) =
      some (List.ofFn (alpha • M.mulVec x + beta • y))
  transposeMulAdd? (alpha beta : ℝ) (x : Fin m → ℝ) (y : Fin n → ℝ) :
    op.transposeMulAdd? alpha (List.ofFn x) beta (List.ofFn y) =
      some (List.ofFn (alpha • M.transpose.mulVec x + beta • y))
  addAbsColumns? (y : Fin n → ℝ) :
    op.addAbsColumns? (List.ofFn y) = some (List.ofFn fun j => y j + ∑ i, |M i j|)
  addAbsRows? (y : Fin m → ℝ) :
    op.addAbsRows? (List.ofFn y) = some (List.ofFn fun i => y i + ∑ j, |M i j|)

/-- A product moves from one side of a dot product to the other. -/
def Adjoint (op : LinearOperator ℝ) : Prop :=
  ∀ (x : Fin op.width → ℝ) (y : Fin op.height → ℝ), ∃ (u : Fin op.height → ℝ)
    (v : Fin op.width → ℝ), op.product? (List.ofFn x) = some (List.ofFn u) ∧
      op.transposeProduct? (List.ofFn y) = some (List.ofFn v) ∧ u ⬝ᵥ y = x ⬝ᵥ v

theorem Represents.adjoint {m n : ℕ} {op : LinearOperator ℝ} {M : RealMatrix m n}
    (h : op.Represents M) : op.Adjoint := by
  obtain rfl := h.height
  obtain rfl := h.width
  intro x y
  have hProduct := h.mulAdd? 1 0 x 0
  have hTranspose := h.transposeMulAdd? 1 0 y 0
  rw [one_smul, smul_zero, add_zero, Pi.zero_def, List.ofFn_const] at hProduct hTranspose
  refine ⟨M.mulVec x, M.transpose.mulVec y, hProduct, hTranspose, ?_⟩
  rw [dotProduct_comm, Matrix.dotProduct_mulVec, Matrix.mulVec_transpose, dotProduct_comm]

end LinearOperator

namespace Matrix

variable {m n : ℕ} (A : Matrix ℝ m n)

theorem foldl_abs_ofFn (f : Fin n → ℝ) :
    (List.ofFn f).foldl (fun s a => s + Scalar.abs a) (Scalar.ofNat 0) = ∑ j, |f j| := by
  simp only [abs_real]
  rw [foldl_add_eq_sum (fun a : ℝ => |a|), List.map_ofFn, List.sum_ofFn]
  exact (congrArg (· + _) zero_real).trans (zero_add _)

theorem addAbsSums_rows (y : Fin m → ℝ) :
    addAbsSums A.rows (List.ofFn y) = List.ofFn fun i => y i + ∑ j, |A.entry i j| := by
  unfold addAbsSums rows
  apply List.ext_getElem (by simp)
  intro i hi hi'
  rw [List.getElem_zipWith, List.getElem_ofFn, List.getElem_ofFn, List.getElem_ofFn, add_comm]
  exact congrArg (_ + ·) (foldl_abs_ofFn _)

theorem addAbsRows?_ofFn (y : Fin m → ℝ) :
    A.addAbsRows? (List.ofFn y) = some (List.ofFn fun i => y i + ∑ j, |A.entry i j|) := by
  rw [addAbsRows?, if_pos List.length_ofFn, addAbsSums_rows]

theorem addAbsColumns?_ofFn (y : Fin n → ℝ) :
    A.addAbsColumns? (List.ofFn y) = some (List.ofFn fun j => y j + ∑ i, |A.entry i j|) :=
  A.transpose.addAbsRows?_ofFn y

theorem operator_represents : A.operator.Represents (Matrix.of A.entry) where
  height := rfl
  width := rfl
  mulAdd? alpha beta x y := by
    have hM (i : Fin m) (j : Fin n) : Matrix.of A.entry i j = A.coeff i j := (A.coeff_coe i j).symm
    rw [← map_range_mulAdd hM]
    exact A.mulAdd?_eq alpha beta List.length_ofFn List.length_ofFn
  transposeMulAdd? alpha beta x y := by
    have hM (j : Fin n) (i : Fin m) :
        (Matrix.of A.entry).transpose j i = A.transpose.coeff j i :=
      (A.transpose.coeff_coe j i).symm
    rw [← map_range_mulAdd hM]
    exact A.transpose.mulAdd?_eq alpha beta List.length_ofFn List.length_ofFn
  addAbsColumns? := A.addAbsColumns?_ofFn
  addAbsRows? := A.addAbsRows?_ofFn

end Matrix

namespace ConicData

variable (c : ConicData ℝ)

def costMatrix : RealMatrix c.n 1 :=
  Matrix.of c.cost.entry

def constraintMatrix : RealMatrix (c.m + c.packed) c.n :=
  Matrix.of (Fin.append c.coefficients.entry fun i j => if (i : ℕ) = j then -1 else 0)

def boundMatrix : RealMatrix (c.m + c.packed) 1 :=
  Matrix.of (Fin.append c.bounds.entry fun _ _ => 0)

theorem constraintMatrix_row (i : Fin c.m) (j : Fin c.n) :
    c.constraintMatrix (Fin.castAdd c.packed i) j = c.coefficients.entry i j := by
  rw [constraintMatrix, Matrix.of_apply, Fin.append_left]

theorem constraintMatrix_packed (i : Fin c.packed) (j : Fin c.n) :
    c.constraintMatrix (Fin.natAdd c.m i) j = if (i : ℕ) = j then -1 else 0 := by
  rw [constraintMatrix, Matrix.of_apply, Fin.append_right]

theorem boundMatrix_row (i : Fin c.m) (k : Fin 1) :
    c.boundMatrix (Fin.castAdd c.packed i) k = c.bounds.entry i k := by
  rw [boundMatrix, Matrix.of_apply, Fin.append_left]

theorem boundMatrix_packed (i : Fin c.packed) (k : Fin 1) :
    c.boundMatrix (Fin.natAdd c.m i) k = 0 := by
  rw [boundMatrix, Matrix.of_apply, Fin.append_right]

theorem constraintMatrix_apply (i : Fin (c.m + c.packed)) (j : Fin c.n) :
    c.constraintMatrix i j = c.stackedAt i j := by
  cases i using Fin.addCases with
  | left i => rw [constraintMatrix_row, Fin.val_castAdd, stackedAt_row c i.isLt, Matrix.coeff_coe]
  | right i => rw [constraintMatrix_packed, Fin.val_natAdd, stackedAt_packed]

theorem boundMatrix_apply (i : Fin (c.m + c.packed)) (k : Fin 1) :
    c.boundMatrix i k = c.boundAt i := by
  cases i using Fin.addCases with
  | left i =>
    rw [boundMatrix_row, Fin.val_castAdd, ← bounds_coeff, Subsingleton.elim k 0]
    exact (c.bounds.coeff_coe i 0).symm
  | right i =>
    rw [boundMatrix_packed, Fin.val_natAdd, boundAt_of_le c (Nat.le_add_right _ _)]

theorem abs_constraintMatrix_packed (i : Fin c.packed) (j : Fin c.n) :
    |c.constraintMatrix (Fin.natAdd c.m i) j| = if (i : ℕ) = j then 1 else 0 := by
  rw [constraintMatrix_packed]
  split <;> simp

theorem sum_abs_constraintMatrix_column (j : Fin c.n) : ∑ i, |c.constraintMatrix i j| =
    ∑ i, |c.coefficients.entry i j| + if (j : ℕ) < c.packed then 1 else 0 := by
  rw [Fin.sum_univ_add]
  congr 1
  · exact Finset.sum_congr rfl fun i _ => by rw [constraintMatrix_row]
  · simp only [abs_constraintMatrix_packed]
    rw [← Finset.sum_range fun i => if i = (j : ℕ) then (1 : ℝ) else 0, Finset.sum_ite_eq']
    simp only [Finset.mem_range]

theorem sum_abs_constraintMatrix_packed (i : Fin c.packed) :
    ∑ j, |c.constraintMatrix (Fin.natAdd c.m i) j| = 1 := by
  simp only [abs_constraintMatrix_packed]
  rw [← Finset.sum_range fun j => if (i : ℕ) = j then (1 : ℝ) else 0, Finset.sum_ite_eq,
    if_pos (Finset.mem_range.mpr (i.isLt.trans_le c.packed_le))]

theorem sum_abs_boundMatrix (k : Fin 1) :
    ∑ i, |c.boundMatrix i k| = ∑ i, |c.bounds.entry i k| := by
  rw [Fin.sum_univ_add]
  simp only [boundMatrix_row, boundMatrix_packed, abs_zero, Finset.sum_const_zero, add_zero]

theorem split?_ofFn {k l : ℕ} (y : Fin (k + l) → ℝ) :
    split? k (List.ofFn y) =
      some (List.ofFn fun i => y (Fin.castAdd l i), List.ofFn fun i => y (Fin.natAdd k i)) := by
  rw [ofFn_append, split?_eq _ _ (by simp), List.take_left' (by simp), List.drop_left' (by simp)]

theorem split?_ofFn_self {k : ℕ} (y : Fin k → ℝ) :
    split? k (List.ofFn y) = some (List.ofFn y, []) := by
  rw [split?_eq _ _ (by simp), List.take_of_length_le (by simp), List.drop_eq_nil_of_le (by simp)]

theorem map_take_append_drop {n k : ℕ} (hk : k ≤ n) (f : ℝ → ℝ) (v : Fin n → ℝ) :
    ((List.ofFn v).take k).map f ++ (List.ofFn v).drop k =
      List.ofFn fun j => if (j : ℕ) < k then f (v j) else v j := by
  apply List.ext_getElem (by simp; omega)
  intro j hj hj'
  rw [List.getElem_append, List.getElem_ofFn]
  by_cases hjk : j < k
  · rw [dif_pos (by simp; omega), if_pos hjk]
    simp
  · rw [dif_neg (by simp; omega), if_neg hjk]
    simp [hk, Nat.le_of_not_lt hjk]

theorem costOperator_represents : c.costOperator.Represents c.costMatrix :=
  c.cost.operator_represents

theorem constraintOperator_addAbsColumns? (y : Fin c.n → ℝ) :
    c.constraintOperator.addAbsColumns? (List.ofFn y) =
      some (List.ofFn fun j => y j + ∑ i, |c.constraintMatrix i j|) := by
  have hEntry (j : Fin c.n) : y j + ∑ i, |c.constraintMatrix i j| =
      if (j : ℕ) < c.packed then y j + ∑ i, |c.coefficients.entry i j| + 1
      else y j + ∑ i, |c.coefficients.entry i j| := by
    rw [sum_abs_constraintMatrix_column, ← add_assoc, add_ite, add_zero]
  have hSplit (v : Fin c.n → ℝ) := split?_eq (List.ofFn v) c.packed (by simp [c.packed_le])
  simp only [hEntry, ← map_take_append_drop c.packed_le (· + 1)]
  simp only [constraintOperator, Matrix.addAbsColumns?_ofFn, Option.bind_eq_bind, Option.bind_some,
    hSplit, Option.pure_def, one_real]

theorem constraintOperator_addAbsRows? (y : Fin (c.m + c.packed) → ℝ) :
    c.constraintOperator.addAbsRows? (List.ofFn y) =
      some (List.ofFn fun i => y i + ∑ j, |c.constraintMatrix i j|) := by
  simp only [constraintOperator, split?_ofFn, split?_ofFn_self, Option.bind_eq_bind,
    Option.bind_some, Matrix.addAbsRows?_ofFn, Option.pure_def]
  rw [List.append_nil, ofFn_append fun i => y i + ∑ j, |c.constraintMatrix i j|, List.map_ofFn]
  simp only [constraintMatrix_row, sum_abs_constraintMatrix_packed, one_real]
  rfl

theorem constraintOperator_represents : c.constraintOperator.Represents c.constraintMatrix where
  height := rfl
  width := rfl
  mulAdd? alpha beta x y := by
    rw [← map_range_mulAdd c.constraintMatrix_apply]
    exact c.constraintOperator_mulAdd? alpha beta List.length_ofFn List.length_ofFn
  transposeMulAdd? alpha beta x y := by
    have hM (j : Fin c.n) (i : Fin (c.m + c.packed)) :
        c.constraintMatrix.transpose j i = c.stackedAt i j := c.constraintMatrix_apply i j
    rw [← map_range_mulAdd (f := fun j i => c.stackedAt i j) hM]
    exact c.constraintOperator_transposeMulAdd? alpha beta List.length_ofFn List.length_ofFn
  addAbsColumns? := c.constraintOperator_addAbsColumns?
  addAbsRows? := c.constraintOperator_addAbsRows?

theorem boundOperator_addAbsRows? (y : Fin (c.m + c.packed) → ℝ) :
    c.boundOperator.addAbsRows? (List.ofFn y) =
      some (List.ofFn fun i => y i + ∑ j, |c.boundMatrix i j|) := by
  rw [ofFn_append fun i => y i + ∑ j, |c.boundMatrix i j|]
  simp only [boundOperator, split?_ofFn, Option.bind_eq_bind, Option.bind_some,
    Matrix.addAbsRows?_ofFn, Option.pure_def, boundMatrix_row, boundMatrix_packed, abs_zero,
    Finset.sum_const_zero, add_zero]

theorem boundOperator_represents : c.boundOperator.Represents c.boundMatrix where
  height := rfl
  width := rfl
  mulAdd? alpha beta x y := by
    rw [← map_range_mulAdd (f := fun i _ => c.boundAt i) c.boundMatrix_apply]
    simp only [Finset.sum_range_one]
    exact c.boundOperator_mulAdd? alpha beta List.length_ofFn List.length_ofFn
  transposeMulAdd? alpha beta x y := by
    have hM (k : Fin 1) (i : Fin (c.m + c.packed)) :
        c.boundMatrix.transpose k i = c.boundAt i := c.boundMatrix_apply i k
    rw [← map_range_mulAdd (f := fun _ i => c.boundAt i) hM]
    exact c.boundOperator_transposeMulAdd? alpha beta List.length_ofFn List.length_ofFn
  addAbsColumns? y := by
    simp only [sum_abs_boundMatrix]
    exact c.bounds.addAbsColumns?_ofFn y
  addAbsRows? := c.boundOperator_addAbsRows?

structure HasData (cost : List ℝ) (rows : List (List ℝ)) (bounds : List ℝ)
    (equalities packed : ℕ) : Prop where
  width : c.n = cost.length
  cost : c.cost.rows = cost.map ([·])
  coefficients : c.coefficients.rows = rows
  bounds : c.bounds.rows = bounds.map ([·])
  equalities : c.equalities = equalities
  packed : c.packed = packed

theorem exists_ofRows? {cost : List ℝ} {rows : List (List ℝ)} {bounds : List ℝ}
    {equalities packed : ℕ} (hBounds : rows.length = bounds.length)
    (hWidth : ∀ row ∈ rows, row.length = cost.length) (hEqualities : equalities ≤ rows.length)
    (hPacked : packed ≤ cost.length) :
    ∃ c, ofRows? cost rows bounds equalities packed = some c ∧
      c.HasData cost rows bounds equalities packed := by
  unfold ofRows?
  rw [dif_pos ⟨hBounds, hWidth, hEqualities, hPacked⟩]
  refine ⟨_, rfl, rfl, ?_, ?_, ?_, rfl, rfl⟩
  · apply List.ext_getElem <;> simp [Matrix.rows]
  · apply List.ext_getElem (by simp [Matrix.rows])
    intro i hi hi'
    apply List.ext_getElem <;> simp [Matrix.rows, hWidth]
  · apply List.ext_getElem <;> simp [Matrix.rows, hBounds]

/-- Rows of matching dimensions are the data of a program, however many of them are equalities and
however many of the variables are leading ones. Its operators are those of its stacked matrices. -/
theorem ofRows?_represents (cost : List ℝ) (rows : List (List ℝ)) (bounds : List ℝ)
    (equalities packed : ℕ) (hBounds : rows.length = bounds.length)
    (hWidth : ∀ row ∈ rows, row.length = cost.length) (hEqualities : equalities ≤ rows.length)
    (hPacked : packed ≤ cost.length) :
    ∃ c, ofRows? cost rows bounds equalities packed = some c ∧
      c.HasData cost rows bounds equalities packed ∧
      (c.costOperator.Represents c.costMatrix ∧ c.costOperator.Adjoint) ∧
      (c.constraintOperator.Represents c.constraintMatrix ∧ c.constraintOperator.Adjoint) ∧
      c.boundOperator.Represents c.boundMatrix ∧ c.boundOperator.Adjoint := by
  obtain ⟨c, hOfRows, hData⟩ := exists_ofRows? hBounds hWidth hEqualities hPacked
  have hCost := c.costOperator_represents
  have hConstraint := c.constraintOperator_represents
  have hBound := c.boundOperator_represents
  exact ⟨c, hOfRows, hData, ⟨hCost, hCost.adjoint⟩, ⟨hConstraint, hConstraint.adjoint⟩,
    hBound, hBound.adjoint⟩

/-- Two leading variables, which pack no matrix, and rows without any columns. -/
theorem ofRows?_represents_degenerate :
    ((∀ row ∈ [[(2 : ℝ), -3, 4], [0, 1, -1]], row.length = 3) ∧
      ∃ c, ofRows? [(5 : ℝ), 6, 1] [[2, -3, 4], [0, 1, -1]] [7, 8] 1 2 = some c ∧
        c.coefficients.rows = [[2, -3, 4], [0, 1, -1]] ∧ c.constraintOperator.height = 4 ∧
        c.constraintOperator.Represents c.constraintMatrix ∧ c.constraintOperator.Adjoint) ∧
    (∀ row ∈ [[], ([] : List ℝ)], row.length = 0) ∧
      ∃ c, ofRows? ([] : List ℝ) [[], []] [1, 2] 1 0 = some c ∧
        c.constraintOperator.Represents c.constraintMatrix ∧
        c.constraintOperator.addAbsRows? [3, 4] = some [3, 4] := by
  have hWidth : ∀ row ∈ [[(2 : ℝ), -3, 4], [0, 1, -1]], row.length = 3 := by simp
  have hNoColumns : ∀ row ∈ [[], ([] : List ℝ)], row.length = 0 := by simp
  refine ⟨⟨hWidth, ?_⟩, hNoColumns, ?_⟩
  · obtain ⟨c, hOfRows, hData, -, hConstraint, -⟩ :=
      ofRows?_represents [5, 6, 1] [[2, -3, 4], [0, 1, -1]] [7, 8] 1 2 rfl hWidth (by decide)
        (by decide)
    have hHeight : c.m = 2 := by simpa [Matrix.rows] using congrArg List.length hData.coefficients
    refine ⟨c, hOfRows, hData.coefficients, ?_, hConstraint⟩
    rw [hConstraint.1.height, hHeight, hData.packed]
  · obtain ⟨c, hOfRows, -, -, ⟨hRepresents, -⟩, -⟩ :=
      ofRows?_represents [] [[], []] [1, 2] 1 0 rfl hNoColumns (by decide) (by decide)
    refine ⟨c, hOfRows, hRepresents, ?_⟩
    cases hOfRows
    have hSums := hRepresents.addAbsRows? ![3, 4]
    simpa using hSums

end ConicData

end PerformanceEstimation
