import Mathlib
import PerformanceEstimation.Proofs.Algebra.Constructions

/-!
# The normal form of symbols

Points and expressions are kept as sparse combinations. In canonical form two of them are the same
combination exactly when no realization tells them apart: realizations along a single line already
do. So the comparison `==` of what the operations build decides equality of the vectors and numbers
that it stands for (`construction_normalForm`), and the constraint that two points coincide is
dropped as trivial exactly when the points are the same.
-/

set_option autoImplicit false

namespace PerformanceEstimation

namespace Terms

variable {κ : Type} [Key κ]

theorem Canonical.mem_iff {t : Terms κ ℝ} (ht : t.Canonical) {term : κ × ℝ} :
    term ∈ t ↔ term.2 ≠ 0 ∧ t.coefficient term.1 = term.2 := by
  constructor
  · intro h
    exact ⟨by simpa using ht.nonzero term h, coefficient_of_mem ht h⟩
  · rintro ⟨hNonzero, hCoefficient⟩
    by_contra hAbsent
    refine hNonzero (hCoefficient ▸ coefficient_eq_zero fun other hOther hKey => ?_)
    have hOther' : other = term :=
      Prod.ext hKey ((coefficient_of_mem ht hOther).symm.trans (hKey ▸ hCoefficient))
    exact hAbsent (hOther' ▸ hOther)

theorem Canonical.ext {t u : Terms κ ℝ} (ht : t.Canonical) (hu : u.Canonical)
    (h : ∀ k, t.coefficient k = u.coefficient k) : t = u := by
  have : Std.Irrefl fun p q : κ × ℝ => p.1 < q.1 := ⟨fun p => Key.lt_irrefl p.1⟩
  have : Std.Antisymm fun p q : κ × ℝ => p.1 < q.1 :=
    ⟨fun _ _ hpq hqp => (Key.lt_irrefl _ (Key.lt_trans _ _ _ hpq hqp)).elim⟩
  refine List.Pairwise.eq_of_mem_iff ht.ascending hu.ascending fun term => ?_
  rw [ht.mem_iff, hu.mem_iff, h]

theorem Canonical.eq_of_total_eq {t u : Terms κ ℝ} (ht : t.Canonical) (hu : u.Canonical)
    (h : ∀ f : κ → ℝ, total f t = total f u) : t = u :=
  ht.ext hu fun k => by rw [coefficient_eq_total ht, coefficient_eq_total hu, h]

end Terms

section Lawful

instance instLawfulBEqPoint : LawfulBEq (Point ℝ) where
  eq_of_beq h := congrArg Point.mk (eq_of_beq (α := Terms BasisIndex ℝ) h)
  rfl {p} := beq_self_eq_true p.terms

instance instLawfulBEqExpression : LawfulBEq (Expression ℝ) where
  eq_of_beq {e f} h := by
    obtain ⟨hLinear, hConstant⟩ := Bool.and_eq_true_iff.mp h
    obtain ⟨hValues, hGram⟩ := Bool.and_eq_true_iff.mp hLinear
    exact Expression.ext_of_parts (eq_of_beq hValues) (eq_of_beq hGram) (eq_of_beq hConstant)
  rfl {e} := Bool.and_eq_true_iff.mpr
    ⟨Bool.and_eq_true_iff.mpr ⟨beq_self_eq_true e.values, beq_self_eq_true e.gram⟩,
      beq_self_eq_true e.constant⟩

end Lawful

section Quadratic

/-- The Gram entries of multiples `x` of one unit vector. -/
def productEntry (x : BasisIndex → ℝ) (pair : BasisPair) : ℝ :=
  x pair.row * x pair.col

/-- What the sum of two basis directions adds to both: the mixed products, which in the upper
triangle belong to one entry. -/
theorem productEntry_polarization {pair entry : BasisPair} (hPair : pair.row ≤ pair.col)
    (hEntry : entry.row ≤ entry.col) :
    productEntry (Pi.single pair.row 1 + Pi.single pair.col 1) entry
        - productEntry (Pi.single pair.row 1) entry - productEntry (Pi.single pair.col 1) entry =
      (if pair.isDiagonal then 2 else 1) * if entry = pair then 1 else 0 := by
  obtain ⟨i, j⟩ := pair
  obtain ⟨k, l⟩ := entry
  have hMixed : productEntry (Pi.single i 1 + Pi.single j 1) ⟨k, l⟩
      - productEntry (Pi.single i 1) ⟨k, l⟩ - productEntry (Pi.single j 1) ⟨k, l⟩ =
      (if k = i ∧ l = j then 1 else 0) + if k = j ∧ l = i then 1 else 0 := by
    simp only [productEntry, Pi.add_apply, Pi.single_apply, ite_and]
    split_ifs <;> norm_num
  rw [hMixed]
  obtain ⟨i⟩ := i
  obtain ⟨j⟩ := j
  obtain ⟨k⟩ := k
  obtain ⟨l⟩ := l
  simp only [BasisPair.isDiagonal, BasisPair.mk.injEq, BasisIndex.mk.injEq, BasisIndex.le_iff,
    beq_iff_eq] at hPair hEntry ⊢
  split_ifs <;> first | omega | norm_num

theorem Terms.coefficient_eq_polarization {t : Terms BasisPair ℝ} (ht : t.Canonical)
    (hUpper : ∀ term ∈ t, term.1.row ≤ term.1.col) {pair : BasisPair}
    (hPair : pair.row ≤ pair.col) :
    (if pair.isDiagonal then 2 else 1) * t.coefficient pair =
      total (productEntry (Pi.single pair.row 1 + Pi.single pair.col 1)) t
        - total (productEntry (Pi.single pair.row 1)) t
        - total (productEntry (Pi.single pair.col 1)) t := by
  rw [coefficient_eq_total ht]
  clear ht
  induction t with
  | nil => simp
  | cons term t ih =>
    obtain ⟨hHead, hTail⟩ := List.forall_mem_cons.mp hUpper
    have hEntry := productEntry_polarization hPair hHead
    rw [total_cons, mul_add, ih hTail, total_cons, total_cons, total_cons]
    linear_combination -term.2 * hEntry

/-- A combination of entries of the upper triangle is known by the quadratic form that it is. -/
theorem Terms.Canonical.eq_of_quadratic_eq {t u : Terms BasisPair ℝ} (ht : t.Canonical)
    (hu : u.Canonical) (htUpper : ∀ term ∈ t, term.1.row ≤ term.1.col)
    (huUpper : ∀ term ∈ u, term.1.row ≤ term.1.col)
    (h : ∀ x, total (productEntry x) t = total (productEntry x) u) : t = u := by
  refine ht.ext hu fun pair => ?_
  by_cases hPair : pair.row ≤ pair.col
  · have hWeight : (if pair.isDiagonal then (2 : ℝ) else 1) ≠ 0 := by
      split <;> norm_num
    refine mul_left_cancel₀ hWeight ?_
    rw [coefficient_eq_polarization ht htUpper hPair, coefficient_eq_polarization hu huUpper hPair,
      h, h, h]
  · -- below the diagonal no entry has a key
    have hBelow {v : Terms BasisPair ℝ} (hv : ∀ term ∈ v, term.1.row ≤ term.1.col) :
        v.coefficient pair = 0 :=
      coefficient_eq_zero fun term hTerm hKey => hPair (hKey ▸ hv term hTerm)
    rw [hBelow htUpper, hBelow huUpper]

end Quadratic

section Completeness

variable {E : Type*} [NormedAddCommGroup E] [InnerProductSpace ℝ E]

namespace Realization

def along (u : E) (x : BasisIndex → ℝ) (value : ValueIndex → ℝ) : Realization E where
  basis i := x i • u
  value := value

variable {u : E} (x : BasisIndex → ℝ) (value : ValueIndex → ℝ)

theorem inner_point_along (hu : ‖u‖ = 1) (p : Point ℝ) :
    inner ℝ ((along u x value).point p) u = p.terms.total x := by
  rw [inner_point_left]
  refine congrArg (Terms.total · p.terms) (funext fun i => ?_)
  rw [along, real_inner_smul_left, real_inner_self_eq_norm_sq, hu, one_pow, mul_one]

theorem eval_along (hu : ‖u‖ = 1) (e : Expression ℝ) :
    (along u x value).eval e =
      e.constant + e.gram.total (productEntry x) + e.values.total value := by
  have hGram : (along u x value).gram = productEntry x := by
    funext pair
    rw [gram, along, real_inner_smul_left, real_inner_smul_right, real_inner_self_eq_norm_sq, hu,
      one_pow, mul_one, productEntry]
  rw [eval, Expression.evalAt_eq_total, hGram]
  rfl

end Realization

variable [Nontrivial E]

theorem Point.Canonical.eq_of_forall_point_eq {p q : Point ℝ} (hp : p.Canonical) (hq : q.Canonical)
    (h : ∀ r : Realization E, r.point p = r.point q) : p = q := by
  obtain ⟨u, hu⟩ := exists_norm_eq E zero_le_one
  refine congrArg Point.mk (Terms.Canonical.eq_of_total_eq hp hq fun x => ?_)
  rw [← Realization.inner_point_along x 0 hu, ← Realization.inner_point_along x 0 hu, h]

theorem Expression.Canonical.eq_of_forall_eval_eq {e f : Expression ℝ} (he : e.Canonical)
    (hf : f.Canonical) (h : ∀ r : Realization E, r.eval e = r.eval f) : e = f := by
  -- the constant where all unknowns vanish, then the values one at a time, then the quadratic form
  obtain ⟨u, hu⟩ := exists_norm_eq E zero_le_one
  have hLine (x : BasisIndex → ℝ) (value : ValueIndex → ℝ) :
      e.constant + e.gram.total (productEntry x) + e.values.total value =
        f.constant + f.gram.total (productEntry x) + f.values.total value := by
    rw [← Realization.eval_along x value hu, ← Realization.eval_along x value hu, h]
  have hConstant : e.constant = f.constant := by
    have hVanish := h ⟨fun _ => 0, fun _ => 0⟩
    rwa [Realization.eval_vanishing, Realization.eval_vanishing] at hVanish
  have hValue (value : ValueIndex → ℝ) : e.values.total value = f.values.total value := by
    have hOrigin := hLine 0 value
    have hZero (t : Terms BasisPair ℝ) : t.total (productEntry 0) = 0 := by
      simp [Terms.total, productEntry]
    rwa [hZero, hZero, hConstant, add_right_inj] at hOrigin
  have hGram (x : BasisIndex → ℝ) :
      e.gram.total (productEntry x) = f.gram.total (productEntry x) := by
    have hPlain := hLine x 0
    rwa [hValue, hConstant, add_left_inj, add_right_inj] at hPlain
  exact ext_of_parts (he.values.eq_of_total_eq hf.values hValue)
    (he.gram.eq_of_quadratic_eq hf.gram he.upper hf.upper hGram) hConstant

end Completeness

section Coinciding

theorem Realization.coincide_holdsAt_iff {E : Type*} [NormedAddCommGroup E]
    [InnerProductSpace ℝ E] (r : Realization E) (p q : Point ℝ) :
    (p.coincide q).HoldsAt r.gram r.value ↔ r.point p = r.point q := by
  rw [Constraint.holdsAt_equal _ _ rfl]
  change r.eval ((p - q).normSq - 0) = 0 ↔ _
  rw [r.eval_sub, r.eval_normSq, r.point_sub, r.eval_zero, sub_zero, sq_eq_zero_iff, norm_eq_zero,
    sub_eq_zero]

theorem Point.coincide_isTriviallySatisfied_iff {p q : Point ℝ} (hp : p.Canonical)
    (hq : q.Canonical) : (p.coincide q).isTriviallySatisfied = true ↔ p = q := by
  constructor
  · intro h
    refine hp.eq_of_forall_point_eq (E := ℝ) hq fun r => ?_
    exact (r.coincide_holdsAt_iff p q).mp (Constraint.holdsAt_of_isTriviallySatisfied _ _ h)
  · rintro rfl
    have hCanonical : (p.coincide p).lhs.Canonical :=
      (Point.Canonical.inner _ (hp.sub hq)).sub (Expression.canonical_const _)
    have hVanish : (p.coincide p).lhs = 0 := by
      refine hCanonical.eq_of_forall_eval_eq (E := ℝ) (Expression.canonical_const _) fun r => ?_
      have hHolds := (r.coincide_holdsAt_iff p p).mpr rfl
      rw [Constraint.holdsAt_equal _ _ rfl] at hHolds
      exact hHolds.trans r.eval_zero.symm
    rw [Constraint.isTriviallySatisfied, hVanish]
    simp [Constraint.violation, Expression.isConstant, Point.coincide, Expression.equals]
    exact ⟨rfl, rfl⟩

end Coinciding

universe u

/-- What the operations build is a sound and complete normal form. It is canonical, it stands in
every realization for what the operations are called, and two points or two expressions compare
equal exactly when they stand for the same in every realization. -/
theorem construction_normalForm :
    (∀ p : Point.Construction, p.result.Canonical) ∧
    (∀ e : Expression.Construction, e.result.Canonical) ∧
    (∀ (E : Type u) [NormedAddCommGroup E] [InnerProductSpace ℝ E] (r : Realization E),
      (∀ p : Point.Construction, r.point p.result = p.meaning r) ∧
      (∀ e : Expression.Construction, r.eval e.result = e.meaning r) ∧
      ∀ p q : Point.Construction, (p.result.coincide q.result).HoldsAt r.gram r.value ↔
        p.meaning r = q.meaning r) ∧
    (∀ p q : Point.Construction, (p.result == q.result) = true ↔
      ∀ (E : Type u) [NormedAddCommGroup E] [InnerProductSpace ℝ E] (r : Realization E),
        p.meaning r = q.meaning r) ∧
    (∀ e f : Expression.Construction, (e.result == f.result) = true ↔
      ∀ (E : Type u) [NormedAddCommGroup E] [InnerProductSpace ℝ E] (r : Realization E),
        e.meaning r = f.meaning r) ∧
    ∀ p q : Point.Construction,
      (p.result.coincide q.result).isTriviallySatisfied = true ↔ (p.result == q.result) = true := by
  refine ⟨fun p => p.canonical_result, fun e => e.canonical_result, fun E _ _ r => ?_,
    fun p q => ?_, fun e f => ?_, fun p q => ?_⟩
  · refine ⟨fun p => p.point_result r, fun e => e.eval_result r, fun p q => ?_⟩
    rw [r.coincide_holdsAt_iff, p.point_result, q.point_result]
  · rw [beq_iff_eq]
    constructor
    · intro h E _ _ r
      rw [← p.point_result, ← q.point_result, h]
    · intro h
      refine p.canonical_result.eq_of_forall_point_eq (E := EuclideanSpace ℝ PUnit.{u + 1})
        q.canonical_result fun r => ?_
      rw [p.point_result, q.point_result, h]
  · rw [beq_iff_eq]
    constructor
    · intro h E _ _ r
      rw [← e.eval_result, ← f.eval_result, h]
    · intro h
      refine e.canonical_result.eq_of_forall_eval_eq (E := EuclideanSpace ℝ PUnit.{u + 1})
        f.canonical_result fun r => ?_
      rw [e.eval_result, f.eval_result, h]
  · rw [beq_iff_eq]
    exact Point.coincide_isTriviallySatisfied_iff p.canonical_result q.canonical_result

end PerformanceEstimation
