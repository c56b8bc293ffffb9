import Mathlib
import PerformanceEstimation.Proofs.Reals

/-!
# Coefficients that may be no number

`PartialReal` adds to the real numbers one value which is no number. Arithmetic that meets it yields
it again, and it compares false with everything, itself included. The maxima and minima of `Scalar`
return the other operand, so that folding them over a list passes over what is no number: a largest
absolute value is at most a bound when some entry is a number and those that are obey the bound
(`foldl_max_abs_le_number_iff`).
-/

set_option autoImplicit false

namespace PerformanceEstimation

/-- A real number, or none. -/
inductive PartialReal where
  | number (a : ℝ)
  | undefined

namespace PartialReal

/-- An operation on numbers. There is no result without both of them. -/
def lift₂ (f : ℝ → ℝ → PartialReal) : PartialReal → PartialReal → PartialReal
  | number a, number b => f a b
  | _, _ => undefined

def lift (f : ℝ → ℝ) : PartialReal → PartialReal
  | number a => number (f a)
  | undefined => undefined

def Compares (r : ℝ → ℝ → Prop) : PartialReal → PartialReal → Prop
  | number a, number b => r a b
  | _, _ => False

noncomputable def isEqual : PartialReal → PartialReal → Bool
  | number a, number b => decide (a = b)
  | _, _ => false

def IsNumber : PartialReal → Prop
  | number _ => True
  | undefined => False

def Within (b : ℝ) (x : PartialReal) : Prop :=
  ∃ a, x = number a ∧ |a| ≤ b

open scoped Classical in
noncomputable instance instScalar : Scalar PartialReal where
  add := lift₂ fun a b => number (a + b)
  sub := lift₂ fun a b => number (a - b)
  mul := lift₂ fun a b => number (a * b)
  div := lift₂ fun a b => if b = 0 then undefined else number (a / b)
  neg := lift fun a => -a
  beq := isEqual
  lt := Compares (· < ·)
  le := Compares (· ≤ ·)
  ofNat n := number n
  sqrtTwo := number Scalar.sqrtTwo
  abs := lift fun a => |a|
  isFinite a := decide a.IsNumber
  decideLt := inferInstance
  decideLe := inferInstance

section Values

variable (a b : ℝ) (x y : PartialReal)

@[simp] theorem isNumber_number : (number a).IsNumber := trivial

@[simp] theorem not_isNumber_undefined : ¬ undefined.IsNumber := id

theorem isNumber_iff_exists {x : PartialReal} : x.IsNumber ↔ ∃ a, x = number a := by
  cases x <;> simp

theorem Within.isNumber {b : ℝ} {x : PartialReal} (h : x.Within b) : x.IsNumber := by
  obtain ⟨a, rfl, -⟩ := h
  exact isNumber_number a

theorem IsNumber.within {b : ℝ} {x : PartialReal} (hx : x.IsNumber)
    (h : ∀ a, number a = x → |a| ≤ b) : x.Within b := by
  obtain ⟨a, rfl⟩ := isNumber_iff_exists.mp hx
  exact ⟨a, rfl, h a rfl⟩

@[simp] theorem zero_partial : (@OfNat.ofNat PartialReal 0 (Scalar.instOfNat 0)) = number 0 :=
  congrArg number Nat.cast_zero

@[simp] theorem one_partial : (@OfNat.ofNat PartialReal 1 (Scalar.instOfNat 1)) = number 1 :=
  congrArg number Nat.cast_one

theorem isNumber_ofNat (n : ℕ) :
    (@OfNat.ofNat PartialReal n (Scalar.instOfNat n)).IsNumber := trivial

@[simp] theorem isNumber_scalar : Scalar.isNumber x = true ↔ x.IsNumber := by
  cases x with
  | number a => exact iff_of_true (decide_eq_true rfl) trivial
  | undefined => exact iff_of_false Bool.false_ne_true id

@[simp] theorem isNumber_add : (x + y).IsNumber ↔ x.IsNumber ∧ y.IsNumber := by
  cases x <;> cases y <;> simp [IsNumber, HAdd.hAdd, Add.add, lift₂]

@[simp] theorem isNumber_sub : (x - y).IsNumber ↔ x.IsNumber ∧ y.IsNumber := by
  cases x <;> cases y <;> simp [IsNumber, HSub.hSub, Sub.sub, lift₂]

@[simp] theorem isNumber_mul : (x * y).IsNumber ↔ x.IsNumber ∧ y.IsNumber := by
  cases x <;> cases y <;> simp [IsNumber, HMul.hMul, Mul.mul, lift₂]

@[simp] theorem isNumber_neg : (-x).IsNumber ↔ x.IsNumber := by
  cases x <;> exact Iff.rfl

theorem isNumber_div_sqrtTwo {x : PartialReal} (h : x.IsNumber) :
    (x / Scalar.sqrtTwo).IsNumber := by
  obtain ⟨a, rfl⟩ := isNumber_iff_exists.mp h
  change (if Scalar.sqrtTwo = (0 : ℝ) then undefined else number (a / Scalar.sqrtTwo)).IsNumber
  rw [sqrtTwo_real, if_neg sqrt_two_ne_zero]
  exact isNumber_number _

@[simp] theorem number_add : number a + number b = number (a + b) := rfl

@[simp] theorem number_sub : number a - number b = number (a - b) := rfl

@[simp] theorem number_mul : number a * number b = number (a * b) := rfl

@[simp] theorem add_undefined : x + undefined = undefined := by
  cases x <;> rfl

@[simp] theorem undefined_mul : undefined * x = undefined := rfl

@[simp] theorem mul_undefined : x * undefined = undefined := by
  cases x <;> rfl

@[simp] theorem neg_undefined : -undefined = undefined := rfl

@[simp] theorem isZero_number : Scalar.isZero (number a) = decide (a = 0) := by
  rw [Scalar.isZero, zero_partial]
  rfl

@[simp] theorem neg_number : -number a = number (-a) := rfl

@[simp] theorem abs_number : Scalar.abs (number a) = number |a| := rfl

@[simp] theorem abs_undefined : Scalar.abs undefined = undefined := rfl

@[simp] theorem number_lt : number a < number b ↔ a < b := Iff.rfl

@[simp] theorem number_le : number a ≤ number b ↔ a ≤ b := Iff.rfl

@[simp] theorem not_undefined_le : ¬ undefined ≤ x := id

@[simp] theorem not_lt_undefined : ¬ x < undefined := by
  cases x <;> exact id

@[simp] theorem max_number : Scalar.max (number a) (number b) = number (max a b) := by
  rw [max_def_lt]
  by_cases h : a < b <;> simp [Scalar.max, h]

@[simp] theorem max_undefined : Scalar.max x undefined = x := by
  cases x <;> simp [Scalar.max]

@[simp] theorem undefined_max : Scalar.max undefined x = x := by
  simp [Scalar.max]

@[simp] theorem min_number : Scalar.min (number a) (number b) = number (min a b) := by
  rw [min_comm, min_def_lt]
  by_cases h : b < a <;> simp [Scalar.min, h]

end Values

section Folds

variable {as : List PartialReal} {b : ℝ}

theorem foldl_max_abs_le_number_iff {start : PartialReal} :
    as.foldl (fun m a => Scalar.max m (Scalar.abs a)) start ≤ number b ↔
      (start.IsNumber ∨ ∃ a ∈ as, a.IsNumber) ∧ (∀ x, start = number x → x ≤ b) ∧
        ∀ x, number x ∈ as → |x| ≤ b := by
  induction as generalizing start with
  | nil => cases start <;> simp
  | cons head as ih =>
    rw [List.foldl_cons, ih]
    cases head with
    | undefined => simp
    | number y =>
      cases start with
      | undefined => simp
      | number z => simp [and_assoc]

open Scalar in
theorem isNumber_getD {as : List PartialReal} (h : ∀ a ∈ as, a.IsNumber) (k : ℕ) :
    (as.getD k 0).IsNumber := by
  rw [List.getD_eq_getElem?_getD]
  cases hGet : as[k]? with
  | none => exact isNumber_ofNat 0
  | some a => exact h a (List.mem_of_getElem? hGet)

/-- The difference of all of them is a number only if each of them is. -/
theorem isNumber_foldl_sub_iff {β : Type} {f : β → PartialReal} {bs : List β}
    {start : PartialReal} : (bs.foldl (fun s b => s - f b) start).IsNumber ↔
      start.IsNumber ∧ ∀ b ∈ bs, (f b).IsNumber := by
  induction bs generalizing start with
  | nil => simp
  | cons head bs ih => rw [List.foldl_cons, ih, isNumber_sub, List.forall_mem_cons, and_assoc]

end Folds

end PartialReal

end PerformanceEstimation
