import Mathlib
import PerformanceEstimation.Scalar

/-!
# Real coefficients

The real numbers are a scalar type on which every operation is exact. The lemmas rewrite the
operations of `Scalar` into those of the library, so that a definition read at the real numbers can
be reasoned about as ordinary arithmetic. Every real number is a number and finite.
Numerals other than zero and one already agree by unfolding instances.
-/

set_option autoImplicit false

namespace PerformanceEstimation

noncomputable instance instScalarReal : Scalar ℝ where
  beq a b := decide (a = b)
  ofNat n := n
  sqrtTwo := √2
  abs a := |a|
  isFinite _ := true
  decideLt := inferInstance
  decideLe := inferInstance

/-!
A numeral from two on carries a proof of its size. A module that defines real functions with such
numerals takes these as local instances, so that all its definitions refer to the same proof.
-/

theorem atLeastTwo_two : Nat.AtLeastTwo 2 := ⟨le_rfl⟩

theorem atLeastTwo_four : Nat.AtLeastTwo 4 := ⟨by decide⟩

@[simp] theorem zero_real : @OfNat.ofNat ℝ 0 (Scalar.instOfNat 0) = (0 : ℝ) := Nat.cast_zero

@[simp] theorem one_real : @OfNat.ofNat ℝ 1 (Scalar.instOfNat 1) = (1 : ℝ) := Nat.cast_one

@[simp] theorem beq_real (a b : ℝ) : (a == b) = decide (a = b) := rfl

instance instLawfulBEqReal : LawfulBEq ℝ where
  eq_of_beq h := of_decide_eq_true h
  rfl := decide_eq_true rfl

@[simp] theorem isZero_real (a : ℝ) : Scalar.isZero a = decide (a = 0) := by
  simp [Scalar.isZero]

@[simp] theorem isNumber_real (a : ℝ) : Scalar.isNumber a = true := by
  simp [Scalar.isNumber]

@[simp] theorem isFinite_real (a : ℝ) : Scalar.isFinite a = true := rfl

@[simp] theorem abs_real (a : ℝ) : Scalar.abs a = |a| := rfl

@[simp] theorem sqrtTwo_real : (Scalar.sqrtTwo : ℝ) = √2 := rfl

@[simp] theorem max_real (a b : ℝ) : Scalar.max a b = max a b := by
  simp [Scalar.max, max_def_lt]

@[simp] theorem min_real (a b : ℝ) : Scalar.min a b = min a b := by
  rw [min_comm, min_def_lt]
  simp [Scalar.min]

@[simp] theorem sum_real (as : List ℝ) : Scalar.sum as = as.sum := by
  rw [Scalar.sum, List.sum_eq_foldl]
  simp

theorem foldl_add_eq_sum {β : Type} (f : β → ℝ) (bs : List β) (a : ℝ) :
    bs.foldl (fun s b => s + f b) a = a + (bs.map f).sum := by
  induction bs generalizing a with
  | nil => simp
  | cons b bs ih => rw [List.foldl_cons, ih, List.map_cons, List.sum_cons, add_assoc]

theorem foldl_sub_eq_sum {β : Type} (f : β → ℝ) (bs : List β) (a : ℝ) :
    bs.foldl (fun s b => s - f b) a = a - (bs.map f).sum := by
  induction bs generalizing a with
  | nil => simp
  | cons b bs ih => rw [List.foldl_cons, ih, List.map_cons, List.sum_cons, sub_sub]

theorem foldl_max_abs_le_iff {as : List ℝ} {a b : ℝ} :
    as.foldl (fun m a => Scalar.max m (Scalar.abs a)) a ≤ b ↔ a ≤ b ∧ ∀ a ∈ as, |a| ≤ b := by
  induction as generalizing a with
  | nil => simp
  | cons head as ih =>
    rw [List.foldl_cons, ih, max_real, abs_real, max_le_iff, List.forall_mem_cons, and_assoc]

theorem minimum?_real (as : List ℝ) : Scalar.minimum? as = as.min? := by
  have hLoop (as : List ℝ) (a : ℝ) :
      as.foldl (fun best a =>
        if Scalar.isNumber a then some (best.elim a fun b => Scalar.min b a) else best) (some a) =
        some (as.foldl min a) := by
    induction as generalizing a with
    | nil => rfl
    | cons head as ih => simpa using ih (min a head)
  cases as with
  | nil => rfl
  | cons head as =>
    rw [Scalar.minimum?, List.foldl_cons, isNumber_real, if_pos rfl]
    exact hLoop as head

theorem sqrt_two_ne_zero : √(2 : ℝ) ≠ 0 := by
  simp

theorem sqrt_two_mul_self : √(2 : ℝ) * √2 = 2 :=
  Real.mul_self_sqrt zero_le_two

end PerformanceEstimation
