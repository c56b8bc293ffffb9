import Mathlib
import PerformanceEstimation.Conic.Program
import PerformanceEstimation.Proofs.Packing.Matrices

/-!
# Operators of a conic program over the real numbers

A vector is a list, read at a position with zero outside. In these terms a dense matrix acts by sums
over its columns, and the operators of a conic program act by the stacked matrices whose entries
are `stackedAt` and `boundAt`. The products are defined whenever the lengths match, also for a
matrix without rows or columns.
-/

set_option autoImplicit false

namespace PerformanceEstimation

theorem eq_map_range_getD {v : List ℝ} {n : ℕ} (hv : v.length = n) :
    v = (List.range n).map (v.getD · 0) := by
  apply List.ext_getElem (by simp [hv])
  intro i hi hi'
  simp [hi]

theorem getD_map_range (f : ℕ → ℝ) {n i : ℕ} (hi : i < n) :
    ((List.range n).map f).getD i 0 = f i := by
  simp [hi]

theorem getD_drop_take (v : List ℝ) {k n i : ℕ} (hi : i < n) :
    ((v.drop k).take n).getD i 0 = v.getD (k + i) 0 := by
  simp [List.getD_eq_getElem?_getD, hi]

theorem getD_take (v : List ℝ) {n i : ℕ} (hi : i < n) : (v.take n).getD i 0 = v.getD i 0 :=
  getD_drop_take v hi (k := 0) |>.trans (by rw [Nat.zero_add])

theorem drop_take_eq_map_range {v : List ℝ} {k n : ℕ} (h : k + n ≤ v.length) :
    (v.drop k).take n = (List.range n).map fun i => v.getD (k + i) 0 := by
  rw [eq_map_range_getD (v := (v.drop k).take n) (n := n) (by simp; omega)]
  apply List.map_congr_left
  intro i hi
  exact getD_drop_take v (List.mem_range.mp hi)

theorem map_range_add (f : ℕ → ℝ) (m n : ℕ) :
    (List.range (m + n)).map f =
      (List.range m).map f ++ (List.range n).map fun i => f (m + i) := by
  rw [List.range_add, List.map_append, List.map_map]
  rfl

namespace Matrix

variable {m n : ℕ}

def coeff (A : Matrix ℝ m n) (i j : ℕ) : ℝ :=
  if h : i < m ∧ j < n then A.entry ⟨i, h.1⟩ ⟨j, h.2⟩ else 0

theorem coeff_coe (A : Matrix ℝ m n) (i : Fin m) (j : Fin n) : A.coeff i j = A.entry i j :=
  dif_pos ⟨i.isLt, j.isLt⟩

theorem coeff_transpose (A : Matrix ℝ m n) (i j : ℕ) : A.transpose.coeff j i = A.coeff i j := by
  unfold coeff
  by_cases h : i < m ∧ j < n
  · rw [dif_pos h, dif_pos h.symm]
    rfl
  · rw [dif_neg h, dif_neg fun h' => h h'.symm]

theorem dot_ofFn (f : Fin n → ℝ) (x : List ℝ) :
    dot (List.ofFn f) x = ∑ j : Fin n, f j * x.getD j 0 := by
  have hSum (as xs : List ℝ) :
      dot as xs = ((as.zip xs).map fun term => term.1 * term.2).sum := by
    unfold dot
    rw [foldl_add_eq_sum (fun term : ℝ × ℝ => term.1 * term.2), zero_real, zero_add]
  rw [hSum]
  induction n generalizing x with
  | zero => simp
  | succ n ih =>
    cases x with
    | nil => simp
    | cons a x => simp [List.ofFn_succ, Fin.sum_univ_succ, ih]

theorem mulAdd?_eq (A : Matrix ℝ m n) (alpha beta : ℝ) {x y : List ℝ} (hx : x.length = n)
    (hy : y.length = m) :
    A.mulAdd? alpha x beta y = some ((List.range m).map fun i =>
      alpha * ∑ j ∈ Finset.range n, A.coeff i j * x.getD j 0 + beta * y.getD i 0) := by
  have hRow (i : Fin m) :
      dot (List.ofFn (A.entry i)) x = ∑ j ∈ Finset.range n, A.coeff i j * x.getD j 0 := by
    rw [dot_ofFn, Finset.sum_range]
    exact Finset.sum_congr rfl fun j _ => by rw [coeff_coe]
  unfold mulAdd?
  split
  · rename_i hEmpty
    congr 1
    apply List.ext_getElem (by simp [hy])
    intro i hi hi'
    have him : i < m := by simpa using hi'
    have hn : n = 0 := hEmpty.resolve_left (by omega)
    subst hn
    simp [hy, him]
  · rw [if_pos ⟨hx, hy⟩]
    congr 1
    apply List.ext_getElem (by simp [rows, hy])
    intro i hi hi'
    have him : i < m := by simpa using hi'
    simp [rows, hy, him, hRow ⟨i, him⟩]

end Matrix

namespace ConicData

theorem addMultiple_eq (alpha : ℝ) {x y : List ℝ} {n : ℕ} (hx : x.length = n) (hy : y.length = n) :
    addMultiple alpha x y = (List.range n).map fun i => y.getD i 0 + alpha * x.getD i 0 := by
  induction n generalizing x y with
  | zero =>
    rw [List.length_eq_zero_iff] at hx hy
    subst hx hy
    rfl
  | succ n ih =>
    cases x with
    | nil => cases hx
    | cons a x =>
      cases y with
      | nil => cases hy
      | cons b y =>
        rw [addMultiple, ih (by simpa using hx) (by simpa using hy), List.range_succ_eq_map,
          List.map_cons, List.map_map]
        rfl

theorem split?_eq {α : Type} (xs : List α) (k : ℕ) (h : k ≤ xs.length) :
    split? k xs = some (xs.take k, xs.drop k) :=
  if_pos h

variable (c : ConicData ℝ)

/-- Entry of the rows stacked on the negated leading variables. -/
noncomputable def stackedAt (i j : ℕ) : ℝ :=
  if i < c.m then c.coefficientAt i j else if i - c.m = j then -1 else 0

theorem stackedAt_row {i : ℕ} (hi : i < c.m) (j : ℕ) :
    c.stackedAt i j = c.coefficients.coeff i j := by
  rw [stackedAt, if_pos hi, coefficientAt, Matrix.coeff]
  simp only [zero_real]

theorem bounds_coeff (i : ℕ) : c.bounds.coeff i 0 = c.boundAt i := by
  simp [Matrix.coeff, boundAt]

theorem cost_coeff (j : ℕ) : c.cost.coeff j 0 = c.costAt j := by
  simp [Matrix.coeff, costAt]

theorem boundAt_of_le {i : ℕ} (hi : c.m ≤ i) : c.boundAt i = 0 := by
  rw [boundAt, dif_neg (by omega), zero_real]

theorem sum_boundAt (x : List ℝ) :
    ∑ i ∈ Finset.range (c.m + c.packed), c.boundAt i * x.getD i 0 =
      ∑ i ∈ Finset.range c.m, c.boundAt i * x.getD i 0 := by
  rw [Finset.sum_range_add, Finset.sum_eq_zero (s := Finset.range c.packed), add_zero]
  intro i _
  rw [boundAt_of_le c (Nat.le_add_right _ _), zero_mul]

theorem stackedAt_packed (i j : ℕ) : c.stackedAt (c.m + i) j = if i = j then -1 else 0 := by
  rw [stackedAt, if_neg (by omega), Nat.add_sub_cancel_left]

theorem sum_stackedAt_packed {i : ℕ} (hi : i < c.packed) (x : List ℝ) :
    ∑ j ∈ Finset.range c.n, c.stackedAt (c.m + i) j * x.getD j 0 = -x.getD i 0 := by
  have hin : i < c.n := hi.trans_le c.packed_le
  simp only [stackedAt_packed, ite_mul, neg_one_mul, zero_mul]
  rw [Finset.sum_ite_eq, if_pos (Finset.mem_range.mpr hin)]

/-- In a column, the leading variables take one further summand each, the others none. -/
theorem sum_stackedAt_column (j : ℕ) (x : List ℝ) :
    ∑ i ∈ Finset.range (c.m + c.packed), c.stackedAt i j * x.getD i 0 =
      ∑ i ∈ Finset.range c.m, c.coefficients.coeff i j * x.getD i 0
        + if j < c.packed then -x.getD (c.m + j) 0 else 0 := by
  rw [Finset.sum_range_add]
  congr 1
  · exact Finset.sum_congr rfl fun i hi => by rw [stackedAt_row c (Finset.mem_range.mp hi)]
  · simp only [stackedAt_packed, ite_mul, neg_one_mul, zero_mul]
    rw [Finset.sum_ite_eq']
    simp only [Finset.mem_range]

theorem constraintOperator_mulAdd? (alpha beta : ℝ) {x y : List ℝ} (hx : x.length = c.n)
    (hy : y.length = c.m + c.packed) :
    c.constraintOperator.mulAdd? alpha x beta y =
      some ((List.range (c.m + c.packed)).map fun i =>
        alpha * ∑ j ∈ Finset.range c.n, c.stackedAt i j * x.getD j 0 + beta * y.getD i 0) := by
  have hPacked := c.packed_le
  have hRows : c.coefficients.mulAdd? alpha x beta (y.take c.m) =
      some ((List.range c.m).map fun i =>
        alpha * ∑ j ∈ Finset.range c.n, c.stackedAt i j * x.getD j 0 + beta * y.getD i 0) := by
    rw [Matrix.mulAdd?_eq _ _ _ hx (by simp [hy])]
    congr 1
    apply List.map_congr_left
    intro i hi
    have him : i < c.m := List.mem_range.mp hi
    simp only [stackedAt_row c him, getD_take y him]
  have hBlock : addMultiple (-alpha) (x.take c.packed)
      (((y.drop c.m).take c.packed).map (beta * ·)) =
      (List.range c.packed).map fun i =>
        alpha * ∑ j ∈ Finset.range c.n, c.stackedAt (c.m + i) j * x.getD j 0
          + beta * y.getD (c.m + i) 0 := by
    rw [addMultiple_eq (-alpha) (n := c.packed) (by simp; omega) (by simp; omega)]
    apply List.map_congr_left
    intro i hi
    have hip : i < c.packed := List.mem_range.mp hi
    have hLength : i < ((y.drop c.m).take c.packed).length := by simp; omega
    have hEntry : (((y.drop c.m).take c.packed).map (beta * ·)).getD i 0 =
        beta * y.getD (c.m + i) 0 := by
      rw [← getD_drop_take y hip, List.getD_eq_getElem _ _ (by simpa using hLength),
        List.getElem_map, List.getD_eq_getElem _ _ hLength]
    rw [hEntry, getD_take x hip, sum_stackedAt_packed c hip]
    ring
  have hRest : (y.drop c.m).drop c.packed = [] := by
    apply List.drop_eq_nil_of_le
    simp [hy]
  simp only [constraintOperator, split?_eq y c.m (by omega),
    split?_eq (y.drop c.m) c.packed (by simp; omega),
    split?_eq x c.packed (by omega), Option.bind_eq_bind, Option.bind_some,
    hRows, hBlock, hRest, List.append_nil, map_range_add, Option.pure_def]

theorem constraintOperator_transposeMulAdd? (alpha beta : ℝ) {x y : List ℝ}
    (hx : x.length = c.m + c.packed) (hy : y.length = c.n) :
    c.constraintOperator.transposeMulAdd? alpha x beta y =
      some ((List.range c.n).map fun j =>
        alpha * ∑ i ∈ Finset.range (c.m + c.packed), c.stackedAt i j * x.getD i 0
          + beta * y.getD j 0) := by
  have hPacked := c.packed_le
  obtain ⟨rest, hRest⟩ : ∃ rest, c.n = c.packed + rest := ⟨_, (Nat.add_sub_of_le hPacked).symm⟩
  have hRows : c.coefficients.transpose.mulAdd? alpha (x.take c.m) beta y =
      some ((List.range c.n).map fun j =>
        alpha * ∑ i ∈ Finset.range c.m, c.coefficients.coeff i j * x.getD i 0
          + beta * y.getD j 0) := by
    rw [Matrix.mulAdd?_eq _ _ _ (by simp [hx]) hy]
    congr 1
    apply List.map_congr_left
    intro j _
    congr 2
    apply Finset.sum_congr rfl
    intro i hi
    rw [Matrix.coeff_transpose, getD_take x (Finset.mem_range.mp hi)]
  simp only [constraintOperator, split?_eq x c.m (by omega),
    split?_eq (x.drop c.m) c.packed (by simp; omega), Option.bind_eq_bind,
    Option.bind_some, hRows, sum_stackedAt_column, hRest, map_range_add, Option.pure_def]
  rw [split?_eq _ _ (by simp), Option.bind_some, List.take_left' (by simp),
    List.drop_left' (by simp),
    addMultiple_eq (-alpha) (n := c.packed) (by simp; omega) (by simp)]
  congr 2
  · apply List.map_congr_left
    intro j hj
    have hjp : j < c.packed := List.mem_range.mp hj
    rw [getD_map_range _ hjp, getD_drop_take x hjp, if_pos hjp]
    ring
  · apply List.map_congr_left
    intro j _
    rw [if_neg (by omega), add_zero]

theorem boundOperator_mulAdd? (alpha beta : ℝ) {x y : List ℝ} (hx : x.length = 1)
    (hy : y.length = c.m + c.packed) :
    c.boundOperator.mulAdd? alpha x beta y =
      some ((List.range (c.m + c.packed)).map fun i =>
        alpha * (c.boundAt i * x.getD 0 0) + beta * y.getD i 0) := by
  have hRows : c.bounds.mulAdd? alpha x beta (y.take c.m) =
      some ((List.range c.m).map fun i =>
        alpha * (c.boundAt i * x.getD 0 0) + beta * y.getD i 0) := by
    rw [Matrix.mulAdd?_eq _ _ _ hx (by simp [hy])]
    congr 1
    apply List.map_congr_left
    intro i hi
    have him : i < c.m := List.mem_range.mp hi
    rw [Finset.sum_range_one, getD_take y him, bounds_coeff]
  have hBlock : ((y.drop c.m).take c.packed).map (beta * ·) =
      (List.range c.packed).map fun i =>
        alpha * (c.boundAt (c.m + i) * x.getD 0 0) + beta * y.getD (c.m + i) 0 := by
    rw [eq_map_range_getD (v := (y.drop c.m).take c.packed) (n := c.packed) (by simp; omega),
      List.map_map]
    apply List.map_congr_left
    intro i hi
    rw [Function.comp_apply, getD_drop_take y (List.mem_range.mp hi),
      boundAt_of_le c (Nat.le_add_right _ _)]
    ring
  have hRest : (y.drop c.m).drop c.packed = [] := by
    apply List.drop_eq_nil_of_le
    simp [hy]
  simp only [boundOperator, split?_eq y c.m (by omega),
    split?_eq (y.drop c.m) c.packed (by simp; omega), Option.bind_eq_bind,
    Option.bind_some, hRows, hBlock, hRest, List.append_nil, map_range_add, Option.pure_def]

theorem boundOperator_transposeMulAdd? (alpha beta : ℝ) {x y : List ℝ}
    (hx : x.length = c.m + c.packed) (hy : y.length = 1) :
    c.boundOperator.transposeMulAdd? alpha x beta y =
      some [alpha * ∑ i ∈ Finset.range (c.m + c.packed), c.boundAt i * x.getD i 0
        + beta * y.getD 0 0] := by
  have hSum : ∑ i ∈ Finset.range (c.m + c.packed), c.boundAt i * x.getD i 0 =
      ∑ i ∈ Finset.range c.m, c.bounds.transpose.coeff 0 i * (x.take c.m).getD i 0 := by
    rw [sum_boundAt]
    apply Finset.sum_congr rfl
    intro i hi
    rw [Matrix.coeff_transpose, bounds_coeff, getD_take x (Finset.mem_range.mp hi)]
  have hRow := Matrix.mulAdd?_eq c.bounds.transpose alpha beta (x := x.take c.m) (by simp [hx]) hy
  simp only [boundOperator, split?_eq x c.m (by omega), Option.bind_eq_bind,
    Option.bind_some, hRow, hSum, List.range_one, List.map_singleton]

theorem costOperator_transposeMulAdd? (alpha beta : ℝ) {x y : List ℝ} (hx : x.length = c.n)
    (hy : y.length = 1) :
    c.costOperator.transposeMulAdd? alpha x beta y =
      some [alpha * ∑ j ∈ Finset.range c.n, c.costAt j * x.getD j 0 + beta * y.getD 0 0] := by
  have hRow := Matrix.mulAdd?_eq c.cost.transpose alpha beta hx hy
  simp only [Matrix.coeff_transpose, cost_coeff, List.range_one, List.map_singleton] at hRow
  exact hRow

theorem costOperator_mulAdd? (alpha beta : ℝ) {x y : List ℝ} (hx : x.length = 1)
    (hy : y.length = c.n) :
    c.costOperator.mulAdd? alpha x beta y =
      some ((List.range c.n).map fun j =>
        alpha * (c.costAt j * x.getD 0 0) + beta * y.getD j 0) := by
  have hRows := Matrix.mulAdd?_eq c.cost alpha beta hx hy
  simp only [Finset.sum_range_one, cost_coeff] at hRows
  exact hRows

end ConicData

noncomputable def LinearOperator.product? (op : LinearOperator ℝ) (x : List ℝ) : Option (List ℝ) :=
  op.mulAdd? 1 x 0 (List.replicate op.height 0)

noncomputable def LinearOperator.transposeProduct? (op : LinearOperator ℝ) (x : List ℝ) :
    Option (List ℝ) :=
  op.transposeMulAdd? 1 x 0 (List.replicate op.width 0)

namespace ConicData

variable (c : ConicData ℝ)

theorem constraintOperator_product? {x : List ℝ} (hx : x.length = c.n) :
    c.constraintOperator.product? x = some ((List.range (c.m + c.packed)).map fun i =>
      ∑ j ∈ Finset.range c.n, c.stackedAt i j * x.getD j 0) := by
  have hProduct := c.constraintOperator_mulAdd? 1 0 hx (List.length_replicate (a := (0 : ℝ)))
  simp only [one_mul, zero_mul, add_zero] at hProduct
  exact hProduct

theorem boundOperator_product? :
    c.boundOperator.product? [1] = some ((List.range (c.m + c.packed)).map c.boundAt) := by
  have hProduct := c.boundOperator_mulAdd? 1 0 (List.length_singleton (a := (1 : ℝ)))
    (List.length_replicate (a := (0 : ℝ)))
  simp only [one_mul, zero_mul, add_zero, List.getD_cons_zero, mul_one] at hProduct
  exact hProduct

theorem boundOperator_transposeProduct? {y : List ℝ} (hy : y.length = c.m + c.packed) :
    c.boundOperator.transposeProduct? y =
      some [∑ i ∈ Finset.range (c.m + c.packed), c.boundAt i * y.getD i 0] := by
  have hProduct := c.boundOperator_transposeMulAdd? 1 0 hy (List.length_replicate (a := (0 : ℝ)))
  simp only [one_mul, zero_mul, add_zero] at hProduct
  exact hProduct

theorem costOperator_product? :
    c.costOperator.product? [1] = some ((List.range c.n).map c.costAt) := by
  have hProduct := c.costOperator_mulAdd? 1 0 (List.length_singleton (a := (1 : ℝ)))
    (List.length_replicate (a := (0 : ℝ)))
  simp only [one_mul, zero_mul, add_zero, List.getD_cons_zero, mul_one] at hProduct
  exact hProduct

theorem costOperator_transposeProduct? {x : List ℝ} (hx : x.length = c.n) :
    c.costOperator.transposeProduct? x =
      some [∑ j ∈ Finset.range c.n, c.costAt j * x.getD j 0] := by
  have hProduct := c.costOperator_transposeMulAdd? 1 0 hx (List.length_replicate (a := (0 : ℝ)))
  simp only [one_mul, zero_mul, add_zero] at hProduct
  exact hProduct

/-- How far a dual vector is from cancelling the cost, by columns. -/
noncomputable def dualResidual? (y : List ℝ) : Option (List ℝ) := do
  c.constraintOperator.transposeMulAdd? 1 y 1 (← c.costOperator.product? [1])

noncomputable def dualResidualAt (y : List ℝ) (j : ℕ) : ℝ :=
  ∑ i ∈ Finset.range (c.m + c.packed), c.stackedAt i j * y.getD i 0 + c.costAt j

theorem dualResidual?_eq {y : List ℝ} (hy : y.length = c.m + c.packed) :
    c.dualResidual? y = some ((List.range c.n).map (c.dualResidualAt y)) := by
  rw [dualResidual?, costOperator_product?, Option.bind_eq_bind, Option.bind_some,
    constraintOperator_transposeMulAdd? c 1 1 hy (by simp)]
  congr 1
  apply List.map_congr_left
  intro j hj
  rw [one_mul, one_mul, getD_map_range _ (List.mem_range.mp hj), dualResidualAt]

end ConicData

namespace ConicProgram

open ConicData

variable (c : ConicProgram ℝ)

/-- Slacks which are zero on the equalities, nonnegative on the inequalities, and end with the
scaled packing of a positive semidefinite matrix. -/
def InCone (slack : List ℝ) : Prop :=
  ∃ b, c.blocks? slack = some b ∧ (∀ a ∈ b.equalities, a = 0) ∧ (∀ a ∈ b.inequalities, 0 ≤ a) ∧
    (∃ M : SquareMatrix c.order, M.PosSemidef ∧ b.packed = scaledPacking M) ∧ b.rest = []

theorem inCone_iff {slack : List ℝ} (h : slack.length = c.m + c.packed) :
    c.InCone slack ↔ (∀ i < c.equalities, slack.getD i 0 = 0) ∧
      (∀ i < c.m, c.equalities ≤ i → 0 ≤ slack.getD i 0) ∧
      ∃ M : SquareMatrix c.order, M.PosSemidef ∧ slack.drop c.m = scaledPacking M := by
  have hEqualities := c.equalities_le
  have hBlocks : c.blocks? slack = some {
      equalities := (List.range c.equalities).map (slack.getD · 0)
      inequalities := (List.range (c.m - c.equalities)).map fun i => slack.getD (c.equalities + i) 0
      packed := slack.drop c.m
      rest := [] } := by
    have hFirst : slack.take c.equalities = (List.range c.equalities).map (slack.getD · 0) := by
      simpa using drop_take_eq_map_range (v := slack) (k := 0) (n := c.equalities) (by omega)
    have hSecond := drop_take_eq_map_range (v := slack) (k := c.equalities)
      (n := c.m - c.equalities) (by omega)
    have hThird : (slack.drop c.equalities).drop (c.m - c.equalities) = slack.drop c.m := by
      rw [List.drop_drop, Nat.add_sub_of_le hEqualities]
    have hPacked : (slack.drop c.m).take c.packed = slack.drop c.m :=
      List.take_of_length_le (by simp; omega)
    have hRest : (slack.drop c.m).drop c.packed = [] :=
      List.drop_eq_nil_of_le (by simp; omega)
    simp only [blocks?, split?_eq slack c.equalities (by omega),
      split?_eq (slack.drop c.equalities) (c.m - c.equalities) (by simp; omega),
      hThird, split?_eq (slack.drop c.m) c.packed (by simp; omega),
      Option.bind_eq_bind, Option.bind_some, Option.pure_def, hFirst, hSecond, hPacked, hRest]
  have hNonneg : (∀ i < c.m, c.equalities ≤ i → 0 ≤ slack.getD i 0) ↔
      ∀ i < c.m - c.equalities, 0 ≤ slack.getD (c.equalities + i) 0 := by
    constructor
    · intro hAll i hi
      exact hAll _ (by omega) (Nat.le_add_right _ _)
    · intro hAll i hi hLow
      have hEntry := hAll (i - c.equalities) (by omega)
      rwa [Nat.add_sub_of_le hLow] at hEntry
  rw [InCone, hBlocks, hNonneg]
  simp

end ConicProgram

end PerformanceEstimation
