import Mathlib
import PerformanceEstimation.Point

/-!
# Equality of points

Points are compared coefficient by coefficient. The comparison is symmetric and transitive wherever
that of the coefficients is, also if some coefficient is no number and differs from itself.
-/

set_option autoImplicit false

namespace PerformanceEstimation

section Instances

variable {β γ : Type} [BEq β] [BEq γ] [PartialEquivBEq β] [PartialEquivBEq γ]

instance instPartialEquivBEqProd : PartialEquivBEq (β × γ) where
  symm := by
    intro p q h
    obtain ⟨hFst, hSnd⟩ := Bool.and_eq_true_iff.mp h
    exact Bool.and_eq_true_iff.mpr ⟨BEq.symm hFst, BEq.symm hSnd⟩
  trans := by
    intro p q r h h'
    obtain ⟨hFst, hSnd⟩ := Bool.and_eq_true_iff.mp h
    obtain ⟨hFst', hSnd'⟩ := Bool.and_eq_true_iff.mp h'
    exact Bool.and_eq_true_iff.mpr ⟨BEq.trans hFst hFst', BEq.trans hSnd hSnd'⟩

instance instPartialEquivBEqList : PartialEquivBEq (List β) where
  symm := by
    intro p q h
    induction p generalizing q with
    | nil =>
      cases q with
      | nil => rfl
      | cons b q => cases h
    | cons a p ih =>
      cases q with
      | nil => cases h
      | cons b q =>
        rw [List.cons_beq_cons, Bool.and_eq_true] at h ⊢
        exact ⟨BEq.symm h.1, ih h.2⟩
  trans := by
    intro p q r h h'
    induction p generalizing q r with
    | nil =>
      cases q with
      | nil => exact h'
      | cons b q => cases h
    | cons a p ih =>
      cases q with
      | nil => cases h
      | cons b q =>
        cases r with
        | nil => cases h'
        | cons c r =>
          rw [List.cons_beq_cons, Bool.and_eq_true] at h h' ⊢
          exact ⟨BEq.trans h.1 h'.1, ih h.2 h'.2⟩

end Instances

namespace Point

variable {α : Type} [Scalar α]

instance instPartialEquivBEq [PartialEquivBEq α] : PartialEquivBEq (Point α) where
  symm {p q} h := BEq.symm (α := Terms BasisIndex α) (a := p.terms) (b := q.terms) h
  trans {p q r} h h' := BEq.trans (α := Terms BasisIndex α) (a := p.terms) (b := q.terms)
    (c := r.terms) h h'

theorem exists_key_of_beq {p q : Point α} (h : (p == q) = true) {term : BasisIndex × α}
    (hTerm : term ∈ q.terms) : ∃ other ∈ p.terms, other.1 = term.1 := by
  obtain ⟨ps⟩ := p
  obtain ⟨qs⟩ := q
  change (ps == qs) = true at h
  change term ∈ qs at hTerm
  change ∃ other ∈ ps, other.1 = term.1
  induction ps generalizing qs with
  | nil =>
    cases qs with
    | nil => cases hTerm
    | cons head qs => cases h
  | cons first ps ih =>
    cases qs with
    | nil => cases hTerm
    | cons head qs =>
      rw [List.cons_beq_cons, Bool.and_eq_true] at h
      rcases List.mem_cons.mp hTerm with rfl | hTerm
      · have hKey : (first.1 == term.1) = true := (Bool.and_eq_true_iff.mp h.1).1
        exact ⟨first, List.mem_cons_self, eq_of_beq hKey⟩
      · obtain ⟨other, hOther, hKey⟩ := ih qs h.2 hTerm
        exact ⟨other, List.mem_cons_of_mem _ hOther, hKey⟩

end Point

end PerformanceEstimation
