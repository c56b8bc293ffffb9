import Mathlib
import PerformanceEstimation.Proofs.Reals
import PerformanceEstimation.Terms

/-!
# Linear combinations over the real numbers

`Terms.total` reads sparse terms as the linear functional that they stand for. Adding a multiple
adds the functionals, in whatever order the keys stand. In canonical form the coefficients can be read
back from the functional, so they add up as well.
-/

set_option autoImplicit false

namespace PerformanceEstimation.Terms

variable {κ : Type} [Key κ]

/-- The combination of the numbers `f` with the coefficients of `t`. -/
def total (f : κ → ℝ) (t : Terms κ ℝ) : ℝ :=
  (t.map fun term => term.2 * f term.1).sum

omit [Key κ] in
@[simp] theorem total_nil (f : κ → ℝ) : total f [] = 0 := rfl

omit [Key κ] in
@[simp] theorem total_cons (f : κ → ℝ) (term : κ × ℝ) (t : Terms κ ℝ) :
    total f (term :: t) = term.2 * f term.1 + total f t := rfl

omit [Key κ] in
theorem total_add (f g : κ → ℝ) (t : Terms κ ℝ) : total (f + g) t = total f t + total g t := by
  rw [total, total, total, ← List.sum_map_add]
  exact congrArg List.sum (List.map_congr_left fun _ _ => mul_add _ _ _)

omit [Key κ] in
theorem total_smul (a : ℝ) (f : κ → ℝ) (t : Terms κ ℝ) : total (a • f) t = a * total f t := by
  rw [total, total, ← List.sum_map_mul_left]
  exact congrArg List.sum (List.map_congr_left fun _ _ => mul_left_comm _ _ _)

omit [Key κ] in
theorem foldl_eq_total (f : κ → ℝ) (t : Terms κ ℝ) (a : ℝ) :
    t.foldl (fun v (k, c) => v + c * f k) a = a + total f t :=
  foldl_add_eq_sum (fun term : κ × ℝ => term.2 * f term.1) t a

omit [Key κ] in
theorem total_consNonzero (f : κ → ℝ) (k : κ) (a : ℝ) (t : Terms κ ℝ) :
    total f (consNonzero k a t) = a * f k + total f t := by
  unfold consNonzero
  split
  · rename_i h
    have ha : a = 0 := by simpa using h
    rw [ha, zero_mul, zero_add]
  · rfl

/-- A term that is merged into others adds its product, if the rest of the merge adds `d`. -/
theorem total_addThen (f : κ → ℝ) (k : κ) (a d : ℝ) (tail : Terms κ ℝ → Terms κ ℝ)
    (htail : ∀ t, total f (tail t) = total f t + d) (t : Terms κ ℝ) :
    total f (addThen k a tail t) = total f t + (a * f k + d) := by
  induction t with
  | nil =>
    rw [addThen, total_consNonzero, htail, total_nil, zero_real]
    ring
  | cons head t ih =>
    obtain ⟨j, b⟩ := head
    rw [addThen]
    split
    · rw [total_consNonzero, htail, zero_real]
      ring
    · split
      · rename_i hkj
        rw [total_consNonzero, htail, total_cons, hkj]
        ring
      · rw [total_cons, total_cons, ih]
        ring

theorem total_axpy (f : κ → ℝ) (c : ℝ) (t x : Terms κ ℝ) :
    total f (t.axpy c x) = total f t + c * total f x := by
  induction x generalizing t with
  | nil => simp [axpy]
  | cons head x ih =>
    obtain ⟨k, a⟩ := head
    rw [axpy, total_addThen f k (c * a) (c * total f x) (fun rest => rest.axpy c x) (fun t => ih t),
      total_cons]
    ring

omit [Key κ] in
theorem total_map_mul (f : κ → ℝ) (c : ℝ) (t : Terms κ ℝ) :
    total f (t.map fun (k, a) => (k, c * a)) = c * total f t := by
  induction t with
  | nil => exact (mul_zero c).symm
  | cons term t ih => rw [List.map_cons, total_cons, total_cons, ih, mul_add, mul_assoc]

omit [Key κ] in
/-- Terms may be left out where the other function counts them as zero. -/
theorem total_filter {f g : κ → ℝ} {P : κ × ℝ → Bool}
    (h : ∀ term, term.2 * g term.1 = if P term then term.2 * f term.1 else 0) (t : Terms κ ℝ) :
    total f (t.filter P) = total g t := by
  induction t with
  | nil => rfl
  | cons term t ih =>
    rw [total_cons, h term, ← ih]
    by_cases hTerm : P term = true
    · rw [List.filter_cons_of_pos hTerm, total_cons, if_pos hTerm]
    · rw [List.filter_cons_of_neg hTerm, if_neg hTerm, zero_add]

omit [Key κ] in
theorem total_filter_nonzero (f : κ → ℝ) (t : Terms κ ℝ) :
    total f (t.filter fun (_, a) => !Scalar.isZero a) = total f t :=
  total_filter (fun term => by by_cases h : term.2 = 0 <;> simp [h]) t

omit [Key κ] in
theorem total_filter_key (f : κ → ℝ) (P : κ → Prop) [DecidablePred P]
    (t : Terms κ ℝ) :
    total f (t.filter fun (k, _) => P k) = total (fun k => if P k then f k else 0) t :=
  total_filter (fun term => by by_cases h : P term.1 <;> simp [h]) t

theorem coefficient_eq_zero {t : Terms κ ℝ} {k : κ} (h : ∀ term ∈ t, term.1 ≠ k) :
    t.coefficient k = 0 := by
  have hLookup : t.lookup k = none := by
    rw [List.lookup_eq_none_iff]
    intro term hTerm
    simpa using (h term hTerm).symm
  simp [coefficient, hLookup]

theorem coefficient_cons (j k : κ) (b : ℝ) (t : Terms κ ℝ) :
    coefficient ((j, b) :: t) k = if k = j then b else coefficient t k := by
  unfold coefficient
  rw [List.lookup_cons]
  by_cases h : k = j
  · simp [h]
  · simp [beq_false_of_ne h, h]

theorem coefficient_eq_total {t : Terms κ ℝ} (ht : t.Canonical) (k : κ) :
    t.coefficient k = total (fun j => if j = k then 1 else 0) t := by
  induction t with
  | nil => simp [coefficient]
  | cons head t ih =>
    obtain ⟨j, b⟩ := head
    obtain ⟨below, -, hTail⟩ := canonical_cons_iff.mp ht
    rw [coefficient_cons, total_cons, ← ih hTail]
    by_cases h : k = j
    · have hZero : coefficient t k = 0 := by
        apply coefficient_eq_zero
        rintro term hTerm rfl
        exact Key.lt_irrefl j (h ▸ below term hTerm)
      rw [hZero, if_pos h, if_pos h.symm]
      ring
    · rw [if_neg h, if_neg (Ne.symm h)]
      ring

theorem coefficient_axpy {t x : Terms κ ℝ} (ht : t.Canonical) (hx : x.Canonical) (c : ℝ) (k : κ) :
    (t.axpy c x).coefficient k = t.coefficient k + c * x.coefficient k := by
  rw [coefficient_eq_total (ht.axpy c hx), total_axpy, ← coefficient_eq_total ht,
    ← coefficient_eq_total hx]

theorem coefficient_of_mem {t : Terms κ ℝ} (ht : t.Canonical) {k : κ} {a : ℝ} (h : (k, a) ∈ t) :
    t.coefficient k = a := by
  induction t with
  | nil => cases h
  | cons head t ih =>
    obtain ⟨j, b⟩ := head
    obtain ⟨below, -, hTail⟩ := canonical_cons_iff.mp ht
    rw [coefficient_cons]
    rcases List.mem_cons.mp h with hHead | hMem
    · cases hHead
      exact if_pos rfl
    · have hne : k ≠ j := by
        rintro rfl
        exact Key.lt_irrefl k (below (k, a) hMem)
      rw [if_neg hne]
      exact ih hTail hMem

theorem total_eq_sum {t : Terms κ ℝ} (ht : t.Canonical) {s : Finset κ}
    (hKeys : ∀ term ∈ t, term.1 ∈ s) (f : κ → ℝ) : total f t = ∑ k ∈ s, t.coefficient k * f k := by
  simp only [coefficient_eq_total ht]
  clear ht
  induction t with
  | nil => simp
  | cons head t ih =>
    have hHead : ∑ k ∈ s, head.2 * (if head.1 = k then 1 else 0) * f k = head.2 * f head.1 := by
      simp [hKeys head List.mem_cons_self]
    simp only [total_cons, add_mul, Finset.sum_add_distrib, hHead]
    rw [ih fun term hTerm => hKeys term (List.mem_cons_of_mem _ hTerm)]

theorem abs_coefficient_le {t : Terms κ ℝ} {b : ℝ} (hb : 0 ≤ b)
    (h : ∀ term ∈ t, |term.2| ≤ b) (k : κ) : |t.coefficient k| ≤ b := by
  induction t with
  | nil => simpa [coefficient] using hb
  | cons head t ih =>
    rw [coefficient_cons]
    split
    · exact h head List.mem_cons_self
    · exact ih fun term hTerm => h term (List.mem_cons_of_mem _ hTerm)

theorem key_mem_of_mem_axpy {α : Type} [Scalar α] {t x : Terms κ α} (hx : x.Canonical) {c : α}
    {term : κ × α} (h : term ∈ t.axpy c x) :
    (∃ old ∈ t, old.1 = term.1) ∨ ∃ new ∈ x, new.1 = term.1 := by
  rw [axpy_eq_foldl_add hx.ascending] at h
  clear hx
  induction x generalizing t with
  | nil => exact .inl ⟨term, h, rfl⟩
  | cons head x ih =>
    rcases ih h with ⟨old, hOld, hKey⟩ | ⟨new, hNew, hKey⟩
    · rcases key_eq_or_mem_of_mem_add hOld with hHead | hOld
      · exact .inr ⟨head, List.mem_cons_self, hHead.symm.trans hKey⟩
      · exact .inl ⟨old, hOld, hKey⟩
    · exact .inr ⟨new, List.mem_cons_of_mem _ hNew, hKey⟩

theorem Canonical.keys_nodup {α : Type} [Scalar α] {t : Terms κ α} (ht : t.Canonical) :
    (t.map (·.1)).Nodup := by
  rw [List.Nodup, List.pairwise_map]
  refine ht.ascending.imp fun {p q} hlt heq => ?_
  exact Key.lt_irrefl q.1 (heq ▸ hlt)

end PerformanceEstimation.Terms
