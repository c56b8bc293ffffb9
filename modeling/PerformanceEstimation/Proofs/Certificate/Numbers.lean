import Mathlib
import PerformanceEstimation.Proofs.Algebra.Supports
import PerformanceEstimation.Proofs.Packing.Slots
import PerformanceEstimation.Proofs.PartialReals
import PerformanceEstimation.Proofs.Program.Assembly
import PerformanceEstimation.Proofs.Program.Multipliers

/-!
# Certificates whose data may be no number

A check passes over coefficients and multipliers that are no number, as long as one coefficient is
(`Certificate.isValid_iff_numbers`). An accepted certificate therefore need not prove anything. It
does for a program of numbers as soon as its bound and its matrix are numbers: the bound takes in
every multiplier, and with these all coefficients of the identity are numbers that were measured
(`Program.proves_of_numbers`).
-/

set_option autoImplicit false

namespace PerformanceEstimation

open PartialReal

namespace Terms

variable {κ α : Type} [Key κ] [Scalar α]

theorem coefficient_mem (t : Terms κ α) (k : κ) : (k, t.coefficient k) ∈ t ∨
    (∀ term ∈ t, term.1 ≠ k) ∧ t.coefficient k = @OfNat.ofNat α 0 (Scalar.instOfNat 0) := by
  unfold coefficient
  cases hLookup : t.lookup k with
  | none =>
    rw [List.lookup_eq_none_iff] at hLookup
    exact .inr ⟨fun term hTerm hKey => by simpa [hKey] using hLookup term hTerm, rfl⟩
  | some a =>
    obtain ⟨l₁, l₂, rfl, -⟩ := List.lookup_eq_some_iff.mp hLookup
    exact .inl (List.mem_append_right _ List.mem_cons_self)

theorem isNumber_coefficient {t : Terms κ PartialReal} (ht : ∀ term ∈ t, term.2.IsNumber) (k : κ) :
    (t.coefficient k).IsNumber := by
  rcases t.coefficient_mem k with hMem | ⟨-, hZero⟩
  · exact ht _ hMem
  · rw [hZero]
    exact isNumber_ofNat 0

end Terms

structure Expression.IsNumeric (e : Expression PartialReal) : Prop where
  values : ∀ term ∈ e.values, term.2.IsNumber
  gram : ∀ term ∈ e.gram, term.2.IsNumber
  constant : e.constant.IsNumber

theorem Expression.IsNumeric.axpy {e x : Expression PartialReal} (he : e.IsNumeric)
    {c : PartialReal} (hc : c.IsNumber) (hx : x.IsNumeric) : (e.axpy c x).IsNumeric := by
  have hTerms {κ : Type} [Key κ] {t u : Terms κ PartialReal} (ht : ∀ term ∈ t, term.2.IsNumber)
      (hu : ∀ term ∈ u, term.2.IsNumber) : ∀ term ∈ t.axpy c u, term.2.IsNumber :=
    Terms.forall_axpy (fun term : κ × PartialReal => term.2.IsNumber)
      (fun term h => by simp [hc, hu term h]) (fun term h b hb => by simpa [hc, hu term h] using hb)
      ht
  exact ⟨hTerms he.values hx.values, hTerms he.gram hx.gram,
    by simp [Expression.axpy, hc, he.constant, hx.constant]⟩

theorem CertificateCheck.atLeast_minimum?_iff {as : List PartialReal} {b : ℝ} :
    atLeast (number b) (Scalar.minimum? as) = true ↔
      ∀ x, number x ∈ as → b ≤ x := by
  -- the best entry so far is a number, if there is one
  have hLoop (best : Option ℝ) : atLeast (number b) (as.foldl (fun best a =>
        if Scalar.isNumber a then some (best.elim a fun b => Scalar.min b a) else best)
      (best.map number)) = true ↔ (∀ y, best = some y → b ≤ y) ∧ ∀ x, number x ∈ as → b ≤ x := by
    induction as generalizing best with
    | nil => cases best <;> simp [atLeast]
    | cons head as ih =>
      rw [List.foldl_cons]
      cases head with
      | undefined => simpa using ih best
      | number y =>
        cases best with
        | none => simpa using ih (some y)
        | some z => simpa [and_assoc] using ih (some (min z y))
  exact (hLoop none).trans (by simp)

namespace Certificate

variable {c : Certificate PartialReal} {minEigenvalue : List PartialReal → Option PartialReal}
  {tol : ℝ}

/-- What acceptance says. What is no number counts for nothing, but not all coefficients may be
so. -/
theorem isValid_iff_numbers : (c.verify minEigenvalue).isValid (number tol) = true ↔
    ((∃ a ∈ c.remainder.constant :: c.defects, a.IsNumber) ∧
      ∀ x, number x ∈ c.remainder.constant :: c.defects → |x| ≤ tol) ∧
    (∀ e ∈ c.entries, e.constraint.sense = .lessEq → ∀ x, e.multiplier = number x → -tol ≤ x) ∧
    CertificateCheck.atLeast (number (-tol)) (minEigenvalue c.psd) = true := by
  have hConstant (a : PartialReal) : (∀ x, Scalar.abs a = number x → x ≤ tol) ↔
      ∀ x, a = number x → |x| ≤ tol := by
    cases a <;> simp
  have hNumber (a : PartialReal) : (Scalar.abs a).IsNumber ↔ a.IsNumber := by
    cases a <;> simp
  have hMultipliers : (∀ x, number x ∈
      (c.entries.filter (·.constraint.sense = .lessEq)).map (·.multiplier) → -tol ≤ x) ↔
      ∀ e ∈ c.entries, e.constraint.sense = .lessEq → ∀ x, e.multiplier = number x → -tol ≤ x := by
    simp only [List.mem_map, List.mem_filter, decide_eq_true_eq]
    constructor
    · intro h e he hSense x hx
      exact h x ⟨e, ⟨he, hSense⟩, hx⟩
    · rintro h x ⟨e, ⟨he, hSense⟩, hx⟩
      exact h e he hSense x hx
  rw [CertificateCheck.isValid, Bool.and_eq_true, Bool.and_eq_true, decide_eq_true_eq, and_assoc,
    verify, foldl_max_abs_le_number_iff, neg_number, CertificateCheck.atLeast_minimum?_iff, hConstant, hNumber,
    hMultipliers]
  simp only [List.mem_cons, exists_eq_or_imp, eq_comm (a := number _), or_imp, forall_and]

/-- The bound and the identity are made of numbers. The identity holds up to the tolerance, in every
unknown, and the multipliers of inequalities are nonnegative up to it. -/
structure Proves (c : Certificate PartialReal) (tol : ℝ) : Prop where
  bound : c.bound.IsNumber
  multipliers : ∀ e ∈ c.entries, e.constraint.sense = .lessEq →
    ∃ x, e.multiplier = number x ∧ -tol ≤ x
  constant : c.remainder.constant.Within tol
  values (k : ValueIndex) : (c.remainder.valueCoefficient k).Within tol
  gram (i j : BasisIndex) :
    (c.remainder.gramCoefficient i j + c.gramWeight (.of i j)).Within tol

section Remainder

theorem isNumeric_remainder (hMetric : c.metric.IsNumeric) (hBound : c.bound.IsNumber)
    (hEntries : ∀ e ∈ c.entries, e.multiplier.IsNumber ∧ e.constraint.lhs.IsNumeric) :
    c.remainder.IsNumeric := by
  refine List.foldlRecOn (motive := Expression.IsNumeric) _ _ ?_ fun rest hRest e he => ?_
  · exact ⟨hMetric.values, hMetric.gram, by simp [Expression.subConst, hMetric.constant, hBound]⟩
  · obtain ⟨hMultiplier, hConstraint⟩ := hEntries e he
    exact hRest.axpy ((isNumber_neg _).mpr hMultiplier) hConstraint

theorem gramBelow_remainder {n : ℕ} (hMetric : c.metric.GramBelow n)
    (hEntries : ∀ e ∈ c.entries, e.constraint.lhs.GramBelow n) : c.remainder.GramBelow n := by
  refine List.foldlRecOn (motive := Expression.GramBelow n) _ _ hMetric fun rest hRest e he => ?_
  exact Terms.forall_key_axpy (BasisPair.Below n) hRest (hEntries e he)

end Remainder

section Matrix

open Scalar in
theorem isNumber_gramWeight {pair : BasisPair} :
    (c.gramWeight pair).IsNumber ↔ (c.psd.getD pair.slot 0).IsNumber := by
  unfold gramWeight
  cases pair.isDiagonal with
  | true => exact Iff.rfl
  | false => exact (isNumber_mul _ _).trans (and_iff_right (isNumber_ofNat 2))

theorem defect_outside (hBelow : c.remainder.GramBelow c.order)
    (hLength : c.psd.length = triangular c.order) {pair : BasisPair} (hUpper : pair.row ≤ pair.col)
    (hOutside : pair ∉ upperTriangle c.order) :
    c.remainder.gram.coefficient pair + c.gramWeight pair = number 0 := by
  have hCoefficient : c.remainder.gram.coefficient pair = number 0 := by
    rcases c.remainder.gram.coefficient_mem pair with hMem | ⟨-, hZero⟩
    · exact absurd (mem_upperTriangle.mpr ⟨hUpper, (hBelow _ hMem).2⟩) hOutside
    · rw [hZero, zero_partial]
  have hSlot : c.psd.length ≤ pair.slot := by
    rw [hLength, ← not_lt, BasisPair.slot_lt_triangular_iff hUpper]
    exact fun hCol => hOutside (mem_upperTriangle.mpr ⟨hUpper, hCol⟩)
  have hWeight : c.gramWeight pair = number 0 := by
    rw [gramWeight, List.getD_eq_default _ _ hSlot, zero_partial]
    split
    · rfl
    · exact congrArg number (mul_zero _)
  rw [hCoefficient, hWeight, number_add, add_zero]

end Matrix

/-- A check measures all coefficients that are numbers. -/
theorem proves_of_isNumeric (hBound : c.bound.IsNumber)
    (hMultipliers : ∀ e ∈ c.entries, e.multiplier.IsNumber) (hRemainder : c.remainder.IsNumeric)
    (hBelow : c.remainder.GramBelow c.order) (hPsd : ∀ a ∈ c.psd, a.IsNumber)
    (hLength : c.psd.length = triangular c.order) (hTol : 0 ≤ tol)
    (hValid : (c.verify minEigenvalue).isValid (number tol) = true) : c.Proves tol := by
  obtain ⟨⟨-, hMeasured⟩, hNonneg, -⟩ := isValid_iff_numbers.mp hValid
  have hZero : (number 0).Within tol := ⟨0, rfl, by simpa using hTol⟩
  have hDefect {a : PartialReal} (ha : a.IsNumber) (hMem : a ∈ c.defects) : a.Within tol :=
    ha.within fun x hx => hMeasured x (hx ▸ List.mem_cons_of_mem _ hMem)
  refine ⟨hBound, fun e he hSense => ?_, ?_, fun k => ?_, fun i j => ?_⟩
  · obtain ⟨x, hx⟩ := isNumber_iff_exists.mp (hMultipliers e he)
    exact ⟨x, hx, hNonneg e he hSense x hx⟩
  · exact hRemainder.constant.within fun x hx => hMeasured x (hx ▸ List.mem_cons_self)
  · rcases c.remainder.values.coefficient_mem k with hMem | ⟨-, hAbsent⟩
    · exact hDefect (hRemainder.values _ hMem)
        (List.mem_append_left _ (List.mem_map_of_mem (f := Prod.snd) hMem))
    · rw [Expression.valueCoefficient, hAbsent, zero_partial]
      exact hZero
  · have hUpper := BasisPair.row_le_col_of i j
    by_cases hInside : BasisPair.of i j ∈ upperTriangle c.order
    · refine hDefect ((isNumber_add _ _).mpr ⟨Terms.isNumber_coefficient hRemainder.gram _,
        isNumber_gramWeight.mpr (isNumber_getD hPsd _)⟩) (List.mem_append_right _ ?_)
      refine List.mem_map.mpr ⟨_, hInside, ?_⟩
      rw [Expression.gramCoefficient, BasisPair.of_row_col hUpper]
      rfl
    · -- the check passes over the pair, and so do the expressions and the matrix
      rw [Expression.gramCoefficient, defect_outside hBelow hLength hUpper hInside]
      exact hZero

end Certificate

/-- The metric and the rows have numbers for coefficients, and use Gram entries of the matrix
only. -/
structure Program.IsNumeric (p : Program PartialReal) : Prop where
  expressions : ∀ e ∈ p.expressions, e.IsNumeric
  below : ∀ e ∈ p.expressions, e.GramBelow p.order

namespace Program

variable {p : Program PartialReal} {y : List PartialReal} {d : Duals PartialReal}

open Scalar in
theorem exists_row_of_mem_entries (hd : p.dualsOf? y = some d) {psd : List PartialReal}
    {e : CertificateEntry PartialReal}
    (he : e ∈ (Certificate.extract p d.multipliers psd).entries) :
    e.constraint.lhs ∈ p.expressions ∧ ∃ r, e.multiplier = y.getD r 0 := by
  rw [entries_extract hd, List.mem_mapIdx] at he
  obtain ⟨r, hr, rfl⟩ := he
  exact ⟨lhs_mem_expressions (List.getElem_mem hr), r, rfl⟩

theorem isNumber_psd (hd : p.dualsOf? y = some d) (hy : ∀ a ∈ y, a.IsNumber) :
    ∀ a ∈ d.psd, a.IsNumber := by
  obtain ⟨-, -, hPsd⟩ := dualsOf?_eq_some_iff.mp hd
  rw [hPsd]
  exact forall_mem_unscale IsNumber (fun _ => isNumber_div_sqrtTwo) fun a ha =>
    hy a (List.mem_of_mem_drop (List.mem_of_mem_take ha))

theorem isNumber_bound_iff {multipliers psd : List PartialReal} :
    (Certificate.extract p multipliers psd).bound.IsNumber ↔ p.metric.constant.IsNumber ∧
      ∀ e ∈ (Certificate.extract p multipliers psd).entries,
        e.multiplier.IsNumber ∧ e.constraint.lhs.constant.IsNumber := by
  simp only [← isNumber_mul]
  exact isNumber_foldl_sub_iff

theorem isNumber_bound (hp : p.IsNumeric) (hd : p.dualsOf? y = some d)
    (hy : ∀ a ∈ y, a.IsNumber) : (Certificate.extract p d.multipliers d.psd).bound.IsNumber := by
  refine isNumber_bound_iff.mpr ⟨(hp.expressions _ p.metric_mem_expressions).constant, ?_⟩
  intro e he
  obtain ⟨hRow, r, hMultiplier⟩ := exists_row_of_mem_entries hd he
  exact ⟨hMultiplier ▸ isNumber_getD hy r, (hp.expressions _ hRow).constant⟩

variable {minEigenvalue : List PartialReal → Option PartialReal} {tol : ℝ}

theorem proves_of_numbers (hp : p.IsNumeric) (hd : p.dualsOf? y = some d) (hTol : 0 ≤ tol)
    (hValid : ((Certificate.extract p d.multipliers d.psd).verify minEigenvalue).isValid
      (number tol) = true)
    (hBound : (Certificate.extract p d.multipliers d.psd).bound.IsNumber)
    (hPsd : ∀ a ∈ d.psd, a.IsNumber) :
    (Certificate.extract p d.multipliers d.psd).Proves tol := by
  have hMetric := p.metric_mem_expressions
  have hMultipliers := (isNumber_bound_iff.mp hBound).2
  have hRows {e : CertificateEntry PartialReal}
      (he : e ∈ (Certificate.extract p d.multipliers d.psd).entries) :
      e.constraint.lhs ∈ p.expressions :=
    (exists_row_of_mem_entries hd he).1
  refine Certificate.proves_of_isNumeric hBound (fun e he => (hMultipliers e he).1) ?_ ?_ hPsd
    (length_psd hd) hTol hValid
  · exact Certificate.isNumeric_remainder (hp.expressions _ hMetric) hBound fun e he =>
      ⟨(hMultipliers e he).1, hp.expressions _ (hRows he)⟩
  · exact Certificate.gramBelow_remainder (hp.below _ hMetric) fun e he => hp.below _ (hRows he)

theorem isNumber_psd_of_proves (hd : p.dualsOf? y = some d)
    (hProves : (Certificate.extract p d.multipliers d.psd).Proves tol) :
    ∀ a ∈ d.psd, a.IsNumber := by
  -- every entry of the matrix is part of a coefficient
  intro a ha
  obtain ⟨k, hk⟩ := List.mem_iff_getElem?.mp ha
  have hSlot : k < triangular p.order := by
    rw [← packed, ← length_psd hd]
    exact (List.getElem?_eq_some_iff.mp hk).1
  obtain ⟨pair, hPair, rfl⟩ := exists_slot_eq hSlot
  have hDefect := (hProves.gram pair.row pair.col).isNumber
  rw [BasisPair.of_row_col (mem_upperTriangle.mp hPair).1, isNumber_add,
    Certificate.isNumber_gramWeight] at hDefect
  simpa [Certificate.extract, hk] using hDefect.2

/-- What an accepted certificate is worth, for a dual vector that need not consist of numbers. Of
the coefficients and of the multipliers of inequalities only those count that are numbers, and at
least one coefficient is. For a program of numbers the certificate proves its bound exactly when
the bound and the matrix are numbers, so it does for a dual vector of numbers. -/
theorem acceptance_exact (hd : p.dualsOf? y = some d)
    (minEigenvalue : List PartialReal → Option PartialReal) (hTol : 0 ≤ tol) :
    let c := Certificate.extract p d.multipliers d.psd
    ((c.verify minEigenvalue).isValid (number tol) = true ↔
      ((∃ a ∈ c.remainder.constant :: c.defects, a.IsNumber) ∧
        ∀ x, number x ∈ c.remainder.constant :: c.defects → |x| ≤ tol) ∧
      (∀ e ∈ c.entries, e.constraint.sense = .lessEq → ∀ x, e.multiplier = number x → -tol ≤ x) ∧
      CertificateCheck.atLeast (number (-tol)) (minEigenvalue c.psd) = true) ∧
    (p.IsNumeric → (c.verify minEigenvalue).isValid (number tol) = true →
      (c.Proves tol ↔ c.bound.IsNumber ∧ ∀ a ∈ d.psd, a.IsNumber) ∧
      ((∀ a ∈ y, a.IsNumber) → c.Proves tol)) := by
  refine ⟨Certificate.isValid_iff_numbers, fun hp hValid => ⟨⟨fun hProves => ?_, ?_⟩, fun hy => ?_⟩⟩
  · exact ⟨hProves.bound, isNumber_psd_of_proves hd hProves⟩
  · rintro ⟨hBound, hPsd⟩
    exact proves_of_numbers hp hd hTol hValid hBound hPsd
  · exact proves_of_numbers hp hd hTol hValid (isNumber_bound hp hd hy) (isNumber_psd hd hy)

section Example

/-- A multiple of a value that is to be at most a bound. -/
noncomputable def boundedValue (weight : ℝ) (bound : PartialReal) (order : ℕ) :
    Program PartialReal where
  store := ⟨[⟨⟨⟨[(⟨0⟩, number 1)], [], -bound⟩, .lessEq⟩, .initialCondition⟩]⟩
  metric := ⟨[(⟨0⟩, number weight)], [], number 0⟩
  order := order

variable (weight : ℝ) (bound a s : PartialReal) (order : ℕ)

theorem dualsOf?_boundedValue_zero :
    (boundedValue weight bound 0).dualsOf? [a] = some ⟨[a], []⟩ := by
  have hPacked : (boundedValue weight bound 0).packed = 0 := show triangular 0 = 0 from rfl
  rw [dualsOf?_eq_some_iff, hPacked]
  exact ⟨le_rfl, rfl, rfl⟩

theorem dualsOf?_boundedValue_one :
    (boundedValue weight bound 1).dualsOf? [a, s] = some ⟨[a], [s]⟩ := by
  have hPacked : (boundedValue weight bound 1).packed = 1 := show triangular 1 = 1 from rfl
  rw [dualsOf?_eq_some_iff, hPacked]
  exact ⟨le_rfl, rfl, rfl⟩

theorem isNumeric_boundedValue (x : ℝ) : (boundedValue weight (number x) order).IsNumeric := by
  have hExpressions : (boundedValue weight (number x) order).expressions =
      [⟨[(⟨0⟩, number weight)], [], number 0⟩, ⟨[(⟨0⟩, number 1)], [], number (-x)⟩] := rfl
  constructor
  · rw [hExpressions]
    rintro e he
    simp only [List.mem_cons, List.not_mem_nil, or_false] at he
    rcases he with rfl | rfl <;> constructor <;> simp
  · rw [hExpressions]
    rintro e he term hTerm
    simp only [List.mem_cons, List.not_mem_nil, or_false] at he
    rcases he with rfl | rfl <;> cases hTerm

theorem entries_boundedValue (psd : List PartialReal) :
    (Certificate.extract (boundedValue weight bound order) [a] psd).entries =
      [⟨⟨0⟩, .initialCondition, ⟨⟨[(⟨0⟩, number 1)], [], -bound⟩, .lessEq⟩, a⟩] := rfl

theorem remainder_boundedValue (psd : List PartialReal) :
    (Certificate.extract (boundedValue weight bound order) [a] psd).remainder =
      ⟨Terms.consNonzero ⟨0⟩ (number weight + -a * number 1) [], [],
        number 0 + -@OfNat.ofNat _ 1 (Scalar.instOfNat 1) * (number 0 - a * -bound) + -a * -bound⟩ :=
  rfl

theorem defects_boundedValue_zero :
    (Certificate.extract (boundedValue weight bound 0) [a] []).defects =
      (Terms.consNonzero (⟨0⟩ : ValueIndex) (number weight + -a * number 1) []).map (·.2) := by
  have hTriangle : upperTriangle 0 = [] := rfl
  rw [Certificate.defects, remainder_boundedValue]
  change _ ++ (upperTriangle 0).map _ = _
  rw [hTriangle, List.map_nil, List.append_nil]

/-- No row has a Gram entry, so the coefficient of the entry is that of the matrix. -/
theorem defects_boundedValue_one :
    (Certificate.extract (boundedValue weight bound 1) [a] [s]).defects =
      (Terms.consNonzero (⟨0⟩ : ValueIndex) (number weight + -a * number 1) []).map (·.2) ++
        [number 0 + s] := by
  have hTriangle : upperTriangle 1 = [⟨⟨0⟩, ⟨0⟩⟩] := rfl
  rw [Certificate.defects, remainder_boundedValue]
  change _ ++ (upperTriangle 1).map _ = _
  rw [hTriangle, ← zero_partial]
  rfl

/-- A bound that is no number is accepted if all other coefficients are small, and so is a
multiplier that is no number if the Gram entries cancel. -/
theorem isValid_undefined :
    ((boundedValue (1 / 1000) undefined 0).dualsOf? [number 0] = some ⟨[number 0], []⟩ ∧
      ((Certificate.extract (boundedValue (1 / 1000) undefined 0) [number 0] []).verify
        List.head?).isValid (number (1 / 1000)) = true ∧
      ¬ (Certificate.extract (boundedValue (1 / 1000) undefined 0) [number 0] []).Proves
        (1 / 1000)) ∧
    (boundedValue 1 (number 1) 1).IsNumeric ∧
    (boundedValue 1 (number 1) 1).dualsOf? [undefined, number 0] =
      some ⟨[undefined], [number 0]⟩ ∧
    ((Certificate.extract (boundedValue 1 (number 1) 1) [undefined] [number 0]).verify
      List.head?).isValid (number 0) = true ∧
    ¬ (Certificate.extract (boundedValue 1 (number 1) 1) [undefined] [number 0]).Proves 0 := by
  refine ⟨⟨dualsOf?_boundedValue_zero _ _ _, ?_, fun h => h.bound⟩, isNumeric_boundedValue _ _ _,
    dualsOf?_boundedValue_one _ _ _ _, ?_, fun h => h.bound⟩
  · rw [Certificate.isValid_iff_numbers, defects_boundedValue_zero, remainder_boundedValue,
      entries_boundedValue]
    simp [Terms.consNonzero, Certificate.extract, CertificateCheck.atLeast]
  · rw [Certificate.isValid_iff_numbers, defects_boundedValue_one, remainder_boundedValue,
      entries_boundedValue]
    simp [Terms.consNonzero, Certificate.extract, CertificateCheck.atLeast]

theorem acceptance_exact_boundedValue :
    (boundedValue 1 (number 1) 1).IsNumeric ∧
    (boundedValue 1 (number 1) 1).dualsOf? [number 1, number 0] =
      some ⟨[number 1], [number 0]⟩ ∧
    ((Certificate.extract (boundedValue 1 (number 1) 1) [number 1] [number 0]).verify
      List.head?).isValid (number 0) = true ∧
    (Certificate.extract (boundedValue 1 (number 1) 1) [number 1] [number 0]).Proves 0 := by
  have hDuals := dualsOf?_boundedValue_one 1 (number 1) (number 1) (number 0)
  have hNumeric := isNumeric_boundedValue 1 1 1
  obtain ⟨hAccepted, hProves⟩ := acceptance_exact hDuals List.head? le_rfl
  have hValid : ((Certificate.extract (boundedValue 1 (number 1) 1) [number 1]
      [number 0]).verify List.head?).isValid (number 0) = true := by
    rw [hAccepted, defects_boundedValue_one, remainder_boundedValue, entries_boundedValue]
    simp [Terms.consNonzero, Certificate.extract, CertificateCheck.atLeast]
  exact ⟨hNumeric, hDuals, hValid, (hProves hNumeric hValid).2 (by simp)⟩

end Example

end Program

end PerformanceEstimation
