import Mathlib
import PerformanceEstimation.Proofs.Algebra.Expressions
import PerformanceEstimation.Proofs.Packing.Matrices

/-!
# Realizations

A realization puts vectors of an inner product space in the place of the basis vectors, and numbers
in the place of the function values. Points then stand for vectors, and expressions for numbers, in
which every operation is what it is called: in particular `Point.inner` is the inner product
(`eval_inner`). The inner products of the basis vectors are a positive semidefinite matrix.
-/

set_option autoImplicit false

namespace PerformanceEstimation

/-- Vectors for the basis and numbers for the function values. -/
structure Realization (E : Type*) where
  basis : BasisIndex → E
  value : ValueIndex → ℝ

namespace Realization

variable {E : Type*} [NormedAddCommGroup E] [InnerProductSpace ℝ E] (r : Realization E)

noncomputable def point (p : Point ℝ) : E :=
  (p.terms.map fun term => term.2 • r.basis term.1).sum

noncomputable def gram (pair : BasisPair) : ℝ :=
  inner ℝ (r.basis pair.row) (r.basis pair.col)

noncomputable def eval (e : Expression ℝ) : ℝ :=
  e.evalAt r.gram r.value

section Points

/-- A point is known by its inner products, which are combinations of those of the basis. -/
theorem inner_point_left (p : Point ℝ) (x : E) :
    inner ℝ (r.point p) x = p.terms.total fun i => inner ℝ (r.basis i) x := by
  unfold point
  induction p.terms with
  | nil => exact inner_zero_left x
  | cons term terms ih =>
    rw [List.map_cons, List.sum_cons, inner_add_left, ih, real_inner_smul_left, Terms.total_cons]

theorem point_axpy (p : Point ℝ) (c : ℝ) (q : Point ℝ) :
    r.point (p.axpy c q) = r.point p + c • r.point q := by
  refine ext_inner_right ℝ fun x => ?_
  rw [inner_add_left, real_inner_smul_left, inner_point_left, inner_point_left, inner_point_left]
  exact Terms.total_axpy _ c p.terms q.terms

@[simp] theorem point_zero : r.point 0 = 0 := rfl

@[simp] theorem point_ofBasis (i : BasisIndex) : r.point (.ofBasis i) = r.basis i := by
  simp [point, Point.ofBasis]

@[simp] theorem point_add (p q : Point ℝ) : r.point (p + q) = r.point p + r.point q := by
  change r.point (p.axpy _ q) = _
  rw [point_axpy, one_real, one_smul]

@[simp] theorem point_sub (p q : Point ℝ) : r.point (p - q) = r.point p - r.point q := by
  change r.point (p.axpy _ q) = _
  rw [point_axpy, one_real, neg_one_smul, sub_eq_add_neg]

@[simp] theorem point_scale (p : Point ℝ) (c : ℝ) : r.point (p.scale c) = c • r.point p := by
  refine ext_inner_right ℝ fun x => ?_
  rw [real_inner_smul_left, inner_point_left, inner_point_left, Point.scale]
  split
  · rename_i hZero
    rw [isZero_real, decide_eq_true_eq] at hZero
    rw [hZero, zero_mul]
    rfl
  · exact (Terms.total_filter_nonzero _ _).trans (Terms.total_map_mul _ c p.terms)

@[simp] theorem point_mul (c : ℝ) (p : Point ℝ) : r.point (c * p) = c • r.point p :=
  r.point_scale p c

@[simp] theorem point_neg (p : Point ℝ) : r.point (-p) = -r.point p := by
  change r.point (p.scale _) = _
  rw [point_scale, one_real, neg_one_smul]

end Points

section Expressions

theorem gram_of (i j : BasisIndex) :
    r.gram (BasisPair.of i j) = inner ℝ (r.basis i) (r.basis j) := by
  unfold BasisPair.of
  split
  · rfl
  · exact real_inner_comm _ _

theorem eval_axpy (e : Expression ℝ) (c : ℝ) (x : Expression ℝ) :
    r.eval (e.axpy c x) = r.eval e + c * r.eval x :=
  Expression.evalAt_axpy _ _ e c x

@[simp] theorem eval_const (c : ℝ) : r.eval (.const c) = c := rfl

@[simp] theorem eval_zero : r.eval 0 = 0 :=
  zero_real

@[simp] theorem eval_ofValue (k : ValueIndex) : r.eval (.ofValue k) = r.value k := by
  simp [eval, Expression.evalAt, Expression.ofValue]

@[simp] theorem eval_add (e x : Expression ℝ) : r.eval (e + x) = r.eval e + r.eval x := by
  change r.eval (e.axpy _ x) = _
  rw [eval_axpy, one_real, one_mul]

@[simp] theorem eval_sub (e x : Expression ℝ) : r.eval (e - x) = r.eval e - r.eval x := by
  change r.eval (e.axpy _ x) = _
  rw [eval_axpy, one_real, neg_one_mul, sub_eq_add_neg]

@[simp] theorem eval_mul (c : ℝ) (e : Expression ℝ) : r.eval (c * e) = c * r.eval e := by
  change r.eval ((0 : Expression ℝ).axpy c e) = _
  rw [eval_axpy, eval_zero, zero_add]

@[simp] theorem eval_scale (e : Expression ℝ) (c : ℝ) : r.eval (e.scale c) = c * r.eval e :=
  r.eval_mul c e

@[simp] theorem eval_neg (e : Expression ℝ) : r.eval (-e) = -r.eval e := by
  change r.eval (e.scale _) = _
  rw [eval_scale, one_real, neg_one_mul]

@[simp] theorem eval_addConst (e : Expression ℝ) (c : ℝ) : r.eval (e.addConst c) = r.eval e + c := by
  simp only [eval, Expression.evalAt_eq_total, Expression.addConst, one_real]
  ring

@[simp] theorem eval_subConst (e : Expression ℝ) (c : ℝ) : r.eval (e.subConst c) = r.eval e - c :=
  Expression.evalAt_subConst _ _ e c

@[simp] theorem eval_linearPart (e : Expression ℝ) :
    r.eval e.linearPart = r.eval e - e.constant := by
  simp only [eval, Expression.evalAt_eq_total, Expression.linearPart, zero_real]
  ring

theorem eval_vanishing (e : Expression ℝ) :
    (⟨fun _ => 0, fun _ => 0⟩ : Realization E).eval e = e.constant := by
  simp [eval, Expression.evalAt_eq_total, Terms.total, gram]

theorem total_gram_row (i : BasisIndex) (q : Point ℝ) :
    Terms.total r.gram (q.terms.map fun (j, c) => (BasisPair.of i j, c)) =
      inner ℝ (r.basis i) (r.point q) := by
  rw [real_inner_comm, inner_point_left, Terms.total, Terms.total, List.map_map]
  refine congrArg List.sum (List.map_congr_left fun term _ => ?_)
  exact congrArg (term.2 * ·) ((r.gram_of i term.1).trans (real_inner_comm _ _))

@[simp] theorem eval_inner (p q : Point ℝ) :
    r.eval (p.inner q) = inner ℝ (r.point p) (r.point q) := by
  -- every pass of the expansion adds the row of one basis vector
  have hRows (ps : Terms BasisIndex ℝ) (t : Terms BasisPair ℝ) :
      Terms.total r.gram (ps.foldl
          (fun t (i, c) => t.axpy c (q.terms.map fun (j, c') => (BasisPair.of i j, c'))) t) =
        Terms.total r.gram t + Terms.total (fun i => inner ℝ (r.basis i) (r.point q)) ps := by
    induction ps generalizing t with
    | nil => exact (add_zero _).symm
    | cons head ps ih =>
      rw [List.foldl_cons, ih, Terms.total_axpy, total_gram_row, Terms.total_cons, add_assoc]
  rw [eval, Expression.evalAt_eq_total, inner_point_left, Expression.constant_inner, zero_add]
  change Terms.total r.gram (p.terms.foldl _ []) + 0 = _
  rw [hRows, Terms.total_nil, zero_add, add_zero]

@[simp] theorem eval_normSq (p : Point ℝ) : r.eval p.normSq = ‖r.point p‖ ^ 2 :=
  (r.eval_inner p p).trans (real_inner_self_eq_norm_sq _)

end Expressions

section Matrix

noncomputable def gramMatrix (n : ℕ) : SquareMatrix n :=
  Matrix.gram ℝ fun i => r.basis ⟨i⟩

theorem posSemidef_gramMatrix (n : ℕ) : (r.gramMatrix n).PosSemidef :=
  Matrix.posSemidef_gram ℝ _

theorem entryAt_gramMatrix {n : ℕ} {pair : BasisPair}
    (h : pair.row.pos < n ∧ pair.col.pos < n) : entryAt (r.gramMatrix n) pair = r.gram pair :=
  dif_pos h

/-- Expressions within the matrix cannot tell it from the realization. -/
theorem evalAt_gramMatrix {n : ℕ} {e : Expression ℝ} (he : e.GramBelow n) :
    e.evalAt (entryAt (r.gramMatrix n)) r.value = r.eval e := by
  have hGram : e.gram.total (entryAt (r.gramMatrix n)) = e.gram.total r.gram :=
    congrArg List.sum (List.map_congr_left fun term hTerm =>
      congrArg (term.2 * ·) (r.entryAt_gramMatrix (he term hTerm)))
  rw [eval, Expression.evalAt_eq_total, Expression.evalAt_eq_total, hGram]

end Matrix

end Realization

end PerformanceEstimation
