import Mathlib
import PerformanceEstimation.Proofs.Packing.Slots
import PerformanceEstimation.Proofs.Reals

/-!
# Packed symmetric matrices over the real numbers

`ofPacked` reads a packing as the symmetric matrix that it stands for, `pack` writes one, and
`scaledPacking` writes it with the square root of two off the diagonal. Unscaling undoes the last
(`unscale_scaledPacking`, `scaledPacking_ofPacked_unscale`). The product of two packings that counts
entries off the diagonal twice is the trace of the product of the matrices (`sum_doubled_eq_trace`),
which is nonnegative for two positive semidefinite ones.
-/

set_option autoImplicit false

abbrev SquareMatrix (d : ℕ) := Matrix (Fin d) (Fin d) ℝ

namespace PerformanceEstimation

/-- The symmetric matrix of order `d` with a packing; zero beyond the packing. -/
def ofPacked (d : ℕ) (v : List ℝ) : SquareMatrix d :=
  Matrix.of fun i j => v.getD (gramSlot ⟨i⟩ ⟨j⟩) 0

def entryAt {d : ℕ} (M : SquareMatrix d) (p : BasisPair) : ℝ :=
  if h : p.row.pos < d ∧ p.col.pos < d then M ⟨p.row.pos, h.1⟩ ⟨p.col.pos, h.2⟩ else 0

def pack {d : ℕ} (M : SquareMatrix d) : List ℝ :=
  (upperTriangle d).map (entryAt M)

/-- The packing with the square root of two off the diagonal. -/
noncomputable def scaledPacking {d : ℕ} (M : SquareMatrix d) : List ℝ :=
  (upperTriangle d).map fun p => if p.isDiagonal then entryAt M p else Scalar.sqrtTwo * entryAt M p

theorem ofPacked_isSymm (d : ℕ) (v : List ℝ) : (ofPacked d v).IsSymm := by
  ext i j
  exact congrArg (v.getD · 0) (gramSlot_comm ⟨j⟩ ⟨i⟩)

theorem ofPacked_isHermitian (d : ℕ) (v : List ℝ) : (ofPacked d v).IsHermitian := by
  rw [Matrix.IsHermitian, Matrix.conjTranspose_eq_transpose_of_trivial]
  exact ofPacked_isSymm d v

theorem isSymm_of_posSemidef {d : ℕ} {M : SquareMatrix d} (hM : M.PosSemidef) : M.IsSymm := by
  rw [Matrix.IsSymm, ← Matrix.conjTranspose_eq_transpose_of_trivial]
  exact hM.isHermitian

theorem entryAt_coe {d : ℕ} (M : SquareMatrix d) (i j : Fin d) : entryAt M ⟨⟨i⟩, ⟨j⟩⟩ = M i j :=
  dif_pos ⟨i.isLt, j.isLt⟩

theorem entryAt_comm {d : ℕ} {M : SquareMatrix d} (hM : M.IsSymm) (i j : BasisIndex) :
    entryAt M ⟨i, j⟩ = entryAt M ⟨j, i⟩ := by
  unfold entryAt
  by_cases h : i.pos < d ∧ j.pos < d
  · rw [dif_pos h, dif_pos h.symm]
    exact (hM.apply _ _).symm
  · rw [dif_neg h, dif_neg fun h' => h h'.symm]

theorem entryAt_add {d : ℕ} (G H : SquareMatrix d) : entryAt (G + H) = entryAt G + entryAt H := by
  funext pair
  simp only [entryAt, Pi.add_apply]
  split <;> simp

theorem entryAt_smul {d : ℕ} (a : ℝ) (G : SquareMatrix d) : entryAt (a • G) = a • entryAt G := by
  funext pair
  simp only [entryAt, Pi.smul_apply]
  split <;> simp

theorem entryAt_ofPacked {d : ℕ} (v : List ℝ) {p : BasisPair} (hp : p ∈ upperTriangle d) :
    entryAt (ofPacked d v) p = v.getD p.slot 0 := by
  obtain ⟨hRow, hCol⟩ := mem_upperTriangle.mp hp
  have hRow' : p.row.pos ≤ p.col.pos := hRow
  rw [entryAt, dif_pos ⟨by omega, hCol⟩, ofPacked, Matrix.of_apply, gramSlot,
    BasisPair.of_row_col hRow]

theorem getD_map_upperTriangle {d : ℕ} (f : BasisPair → ℝ) {p : BasisPair}
    (hp : p ∈ upperTriangle d) : ((upperTriangle d).map f).getD p.slot 0 = f p := by
  rw [List.getD_eq_getElem?_getD, List.getElem?_map, getElem?_upperTriangle hp, Option.map_some,
    Option.getD_some]

theorem eq_of_getD_slot_eq {d : ℕ} {v w : List ℝ} (hv : v.length = triangular d)
    (hw : w.length = triangular d)
    (h : ∀ p ∈ upperTriangle d, v.getD p.slot 0 = w.getD p.slot 0) : v = w := by
  apply List.ext_getElem (hv.trans hw.symm)
  intro k hk hk'
  obtain ⟨p, hp, rfl⟩ := exists_slot_eq (hv ▸ hk)
  have hSlot := h p hp
  rwa [List.getD_eq_getElem _ _ hk, List.getD_eq_getElem _ _ hk'] at hSlot

@[simp] theorem length_pack {d : ℕ} (M : SquareMatrix d) : (pack M).length = triangular d := by
  simp [pack]

@[simp] theorem length_scaledPacking {d : ℕ} (M : SquareMatrix d) :
    (scaledPacking M).length = triangular d := by
  simp [scaledPacking]

theorem of_mem_upperTriangle {d : ℕ} (i j : Fin d) :
    BasisPair.of ⟨i⟩ ⟨j⟩ ∈ upperTriangle d := by
  refine mem_upperTriangle.mpr ⟨BasisPair.row_le_col_of _ _, ?_⟩
  unfold BasisPair.of
  split
  · exact j.isLt
  · exact i.isLt

theorem entryAt_of {d : ℕ} {M : SquareMatrix d} (hM : M.IsSymm) (i j : Fin d) :
    entryAt M (BasisPair.of ⟨i⟩ ⟨j⟩) = M i j := by
  unfold BasisPair.of
  split
  · exact entryAt_coe M i j
  · rw [entryAt_comm hM]
    exact entryAt_coe M i j

theorem ofPacked_pack {d : ℕ} {M : SquareMatrix d} (hM : M.IsSymm) : ofPacked d (pack M) = M := by
  ext i j
  rw [ofPacked, Matrix.of_apply, gramSlot, pack, getD_map_upperTriangle _
    (of_mem_upperTriangle i j), entryAt_of hM]

theorem getD_unscale (v : List ℝ) {p : BasisPair} (hp : p.row ≤ p.col) :
    (unscale v).getD p.slot 0 =
      if p.isDiagonal then v.getD p.slot 0 else v.getD p.slot 0 / √2 := by
  rw [List.getD_eq_getElem?_getD, getElem?_unscale v hp, List.getD_eq_getElem?_getD]
  cases v[p.slot]? with
  | none => simp
  | some a => rfl

theorem unscale_scaledPacking {d : ℕ} (M : SquareMatrix d) :
    unscale (scaledPacking M) = pack M := by
  apply eq_of_getD_slot_eq (by rw [length_unscale, length_scaledPacking]) (length_pack M)
  intro p hp
  rw [getD_unscale _ (mem_upperTriangle.mp hp).1, scaledPacking, getD_map_upperTriangle _ hp, pack,
    getD_map_upperTriangle _ hp]
  cases p.isDiagonal with
  | true => rfl
  | false => simp [mul_div_cancel_left₀ _ sqrt_two_ne_zero]

theorem scaledPacking_ofPacked_unscale {d : ℕ} {v : List ℝ} (hv : v.length = triangular d) :
    scaledPacking (ofPacked d (unscale v)) = v := by
  apply eq_of_getD_slot_eq (length_scaledPacking _) hv
  intro p hp
  rw [scaledPacking, getD_map_upperTriangle _ hp, entryAt_ofPacked _ hp,
    getD_unscale _ (mem_upperTriangle.mp hp).1]
  cases p.isDiagonal with
  | true => rfl
  | false => simp [mul_div_cancel₀ _ sqrt_two_ne_zero]

theorem sum_upperTriangle_succ (f : BasisPair → ℝ) (d : ℕ) :
    ((upperTriangle (d + 1)).map f).sum =
      ((upperTriangle d).map f).sum + ∑ i ∈ Finset.range (d + 1), f ⟨⟨i⟩, ⟨d⟩⟩ := by
  rw [upperTriangle_succ, List.map_append, List.sum_append, List.map_map]
  rfl

theorem sum_upperTriangle_of_le {f : BasisPair → ℝ} {d n : ℕ} (h : d ≤ n)
    (hf : ∀ p : BasisPair, p.row ≤ p.col → d ≤ p.col.pos → f p = 0) :
    ((upperTriangle n).map f).sum = ((upperTriangle d).map f).sum := by
  induction n, h using Nat.le_induction with
  | base => rfl
  | succ n hn ih =>
    have hZero : ∑ i ∈ Finset.range (n + 1), f ⟨⟨i⟩, ⟨n⟩⟩ = 0 :=
      Finset.sum_eq_zero fun i hi => hf _ (Nat.lt_succ_iff.mp (Finset.mem_range.mp hi)) hn
    rw [sum_upperTriangle_succ, ih, hZero, add_zero]

/-- Doubling what lies off the diagonal sums a symmetric function over the square. -/
theorem sum_upperTriangle_doubled {f : BasisIndex → BasisIndex → ℝ} (hf : ∀ i j, f i j = f j i)
    (d : ℕ) :
    ((upperTriangle d).map fun p =>
        if p.isDiagonal then f p.row p.col else 2 * f p.row p.col).sum =
      ∑ i ∈ Finset.range d, ∑ j ∈ Finset.range d, f ⟨i⟩ ⟨j⟩ := by
  induction d with
  | zero => rfl
  | succ d ih =>
    have hColumn : ∀ i ∈ Finset.range d, (if (⟨⟨i⟩, ⟨d⟩⟩ : BasisPair).isDiagonal then f ⟨i⟩ ⟨d⟩
        else 2 * f ⟨i⟩ ⟨d⟩) = f ⟨i⟩ ⟨d⟩ + f ⟨d⟩ ⟨i⟩ := by
      intro i hi
      have hne : i ≠ d := (Finset.mem_range.mp hi).ne
      rw [if_neg (by simpa [BasisPair.isDiagonal] using hne), hf ⟨d⟩ ⟨i⟩, two_mul]
    rw [sum_upperTriangle_succ, ih, Finset.sum_range_succ, Finset.sum_congr rfl hColumn,
      if_pos (by simp [BasisPair.isDiagonal])]
    simp only [Finset.sum_range_succ, Finset.sum_add_distrib]
    ring

/-- The product of two packings that counts entries off the diagonal twice. -/
theorem sum_doubled_eq_trace (v : List ℝ) {d : ℕ} {M : SquareMatrix d} (hM : M.IsSymm) :
    ((upperTriangle d).map fun p =>
        (if p.isDiagonal then v.getD p.slot 0 else 2 * v.getD p.slot 0) * entryAt M p).sum =
      (ofPacked d v * M).trace := by
  have hTerms : ∀ p ∈ upperTriangle d,
      (if p.isDiagonal then v.getD p.slot 0 else 2 * v.getD p.slot 0) * entryAt M p =
        if p.isDiagonal then v.getD (gramSlot p.row p.col) 0 * entryAt M ⟨p.row, p.col⟩
        else 2 * (v.getD (gramSlot p.row p.col) 0 * entryAt M ⟨p.row, p.col⟩) := by
    intro p hp
    rw [gramSlot, BasisPair.of_row_col (mem_upperTriangle.mp hp).1, ite_mul, mul_assoc]
  rw [List.map_congr_left hTerms, sum_upperTriangle_doubled (f := fun i j =>
      v.getD (gramSlot i j) 0 * entryAt M ⟨i, j⟩)
    (fun i j => by rw [gramSlot_comm, entryAt_comm hM])]
  simp only [Finset.sum_range, Matrix.trace, Matrix.diag_apply, Matrix.mul_apply]
  refine Finset.sum_congr rfl fun i _ => Finset.sum_congr rfl fun j _ => ?_
  rw [entryAt_coe, hM.apply]
  rfl

theorem abs_apply_le_trace {d : ℕ} {M : SquareMatrix d} (hM : M.PosSemidef) (i j : Fin d) :
    |M i j| ≤ M.trace := by
  obtain ⟨m, v, rfl⟩ := Matrix.posSemidef_iff_eq_sum_vecMulVec.mp hM
  have hTerm (k : Fin m) : |v k i * v k j| ≤ ∑ l, v k l * v k l := by
    have hi := Finset.single_le_sum (fun l _ => mul_self_nonneg (v k l)) (Finset.mem_univ i)
    have hj := Finset.single_le_sum (fun l _ => mul_self_nonneg (v k l)) (Finset.mem_univ j)
    rw [abs_le]
    constructor
    · linarith [sq_nonneg (v k i + v k j)]
    · linarith [sq_nonneg (v k i - v k j)]
  calc |(∑ k, Matrix.vecMulVec (v k) (star (v k))) i j|
    _ = |∑ k, v k i * v k j| := by simp [Matrix.sum_apply, Matrix.vecMulVec_apply]
    _ ≤ ∑ k, |v k i * v k j| := Finset.abs_sum_le_sum_abs _ _
    _ ≤ ∑ k, ∑ l, v k l * v k l := Finset.sum_le_sum fun k _ => hTerm k
    _ = (∑ k, Matrix.vecMulVec (v k) (star (v k))).trace := by
        simp only [Matrix.trace_sum, Matrix.trace_vecMulVec, star_trivial]
        rfl

theorem trace_mul_nonneg {d : ℕ} {A B : SquareMatrix d} (hA : A.PosSemidef) (hB : B.PosSemidef) :
    0 ≤ (A * B).trace := by
  obtain ⟨m, v, rfl⟩ := Matrix.posSemidef_iff_eq_sum_vecMulVec.mp hB
  rw [Finset.mul_sum, Matrix.trace_sum]
  refine Finset.sum_nonneg fun i _ => ?_
  rw [Matrix.mul_vecMulVec, Matrix.trace_vecMulVec, dotProduct_comm]
  exact hA.dotProduct_mulVec_nonneg (v i)

/-- Raising the diagonal by as much as the spectrum goes below zero leaves no negative part. -/
theorem posSemidef_add_algebraMap {d : ℕ} {A : SquareMatrix d} (hA : A.IsHermitian) {e : ℝ}
    (h : ∀ x ∈ spectrum ℝ A, -e ≤ x) : (A + algebraMap ℝ (SquareMatrix d) e).PosSemidef := by
  rw [Matrix.posSemidef_iff_isHermitian_and_spectrum_nonneg]
  constructor
  · exact hA.add (IsSelfAdjoint.algebraMap _ (.all e))
  · rw [← spectrum.add_singleton_eq]
    intro x hx
    obtain ⟨y, hy, _, rfl, rfl⟩ := Set.mem_add.mp hx
    have hLow := h y hy
    change 0 ≤ y + _
    linarith

theorem neg_mul_trace_le {d : ℕ} {A B : SquareMatrix d} (hA : A.IsHermitian) {e : ℝ}
    (h : ∀ x ∈ spectrum ℝ A, -e ≤ x) (hB : B.PosSemidef) : -(e * B.trace) ≤ (A * B).trace := by
  have hNonneg := trace_mul_nonneg (posSemidef_add_algebraMap hA h) hB
  rw [add_mul, Matrix.trace_add, ← Algebra.smul_def, Matrix.trace_smul, smul_eq_mul] at hNonneg
  linarith

def leadingBlock {n d : ℕ} (M : SquareMatrix n) (h : d ≤ n) : SquareMatrix d :=
  M.submatrix (Fin.castLE h) (Fin.castLE h)

theorem entryAt_leadingBlock {n d : ℕ} (M : SquareMatrix n) (h : d ≤ n) {p : BasisPair}
    (hp : p ∈ upperTriangle d) : entryAt (leadingBlock M h) p = entryAt M p := by
  obtain ⟨hRow, hCol⟩ := mem_upperTriangle.mp hp
  have hRow' : p.row.pos ≤ p.col.pos := hRow
  rw [entryAt, entryAt, dif_pos ⟨by omega, hCol⟩, dif_pos ⟨by omega, by omega⟩]
  rfl

theorem trace_leadingBlock_le {n d : ℕ} {M : SquareMatrix n} (hM : M.PosSemidef) (h : d ≤ n) :
    (leadingBlock M h).trace ≤ M.trace := by
  calc (leadingBlock M h).trace
    _ = ∑ i ∈ Finset.univ.map (Fin.castLEEmb h), M i i := by
        rw [Finset.sum_map]
        rfl
    _ ≤ M.trace := Finset.sum_le_univ_sum_of_nonneg fun i => hM.diag_nonneg

end PerformanceEstimation
