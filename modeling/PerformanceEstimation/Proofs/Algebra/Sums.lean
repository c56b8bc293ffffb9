import Mathlib
import PerformanceEstimation.Proofs.Algebra.NormalForm

/-!
# Weighted sums of symbols

A weighted sum of points or of expressions is built up from zero, one multiple after the other. It
takes the weighted sum of the values of its terms wherever these are evaluated, and it is canonical
if they are. Two symbols are equivalent if no evaluation tells them apart; in canonical form they
are then the same.
-/

set_option autoImplicit false

namespace PerformanceEstimation

section Definitions

variable {α : Type} [Scalar α]

def Point.weighted (terms : List (α × Point α)) : Point α :=
  terms.foldl (fun p (c, x) => p.axpy c x) 0

def Expression.weighted (terms : List (α × Expression α)) : Expression α :=
  terms.foldl (fun e (c, x) => e.axpy c x) 0

theorem Point.weighted_concat (terms : List (α × Point α)) (last : α × Point α) :
    weighted (terms ++ [last]) = (weighted terms).axpy last.1 last.2 :=
  List.foldl_concat _ _ _ _

theorem Expression.weighted_concat (terms : List (α × Expression α)) (last : α × Expression α) :
    weighted (terms ++ [last]) = (weighted terms).axpy last.1 last.2 :=
  List.foldl_concat _ _ _ _

end Definitions

theorem Point.canonical_weighted {terms : List (ℝ × Point ℝ)}
    (h : ∀ term ∈ terms, term.2.Canonical) : (weighted terms).Canonical := by
  induction terms using List.reverseRecOn with
  | nil => exact Canonical.zero
  | append_singleton terms last ih =>
    obtain ⟨hTerms, hLast⟩ := List.forall_mem_append.mp h
    rw [weighted_concat]
    exact (ih hTerms).axpy _ (hLast last List.mem_cons_self)

theorem Expression.canonical_weighted {terms : List (ℝ × Expression ℝ)}
    (h : ∀ term ∈ terms, term.2.Canonical) : (weighted terms).Canonical := by
  induction terms using List.reverseRecOn with
  | nil => exact canonical_const _
  | append_singleton terms last ih =>
    obtain ⟨hTerms, hLast⟩ := List.forall_mem_append.mp h
    rw [weighted_concat]
    exact (ih hTerms).axpy _ (hLast last List.mem_cons_self)

section Values

namespace Point

variable (b : BasisIndex → ℝ)

theorem evalAt_eq_total (p : Point ℝ) : p.evalAt b = p.terms.total b := by
  rw [evalAt, Terms.foldl_eq_total, zero_real, zero_add]

theorem evalAt_axpy (p : Point ℝ) (c : ℝ) (x : Point ℝ) :
    (p.axpy c x).evalAt b = p.evalAt b + c * x.evalAt b := by
  simp only [evalAt_eq_total]
  exact Terms.total_axpy b c p.terms x.terms

theorem evalAt_weighted (terms : List (ℝ × Point ℝ)) :
    (weighted terms).evalAt b = (terms.map fun term => term.1 * term.2.evalAt b).sum := by
  induction terms using List.reverseRecOn with
  | nil => exact zero_real
  | append_singleton terms last ih =>
    rw [weighted_concat, evalAt_axpy, ih, List.map_append, List.sum_append, List.map_singleton,
      List.sum_singleton]

theorem evalAt_scale (p : Point ℝ) (c : ℝ) : (p.scale c).evalAt b = c * p.evalAt b := by
  rw [evalAt_eq_total, evalAt_eq_total, scale]
  split
  · rename_i hZero
    have hc : c = 0 := by simpa using hZero
    rw [hc, zero_mul]
    rfl
  · rw [Terms.total_filter_nonzero, Terms.total_map_mul]

/-- No coordinates of the basis vectors tell the points apart. -/
def Equivalent (p q : Point ℝ) : Prop :=
  ∀ b, p.evalAt b = q.evalAt b

theorem Equivalent.eq {p q : Point ℝ} (h : p.Equivalent q) (hp : p.Canonical)
    (hq : q.Canonical) : p = q := by
  refine congrArg Point.mk (Terms.Canonical.eq_of_total_eq hp hq fun b => ?_)
  rw [← evalAt_eq_total, ← evalAt_eq_total, h b]

end Point

namespace Expression

variable (gram : BasisPair → ℝ) (value : ValueIndex → ℝ)

theorem evalAt_weighted (terms : List (ℝ × Expression ℝ)) :
    (weighted terms).evalAt gram value =
      (terms.map fun term => term.1 * term.2.evalAt gram value).sum := by
  induction terms using List.reverseRecOn with
  | nil => exact zero_real
  | append_singleton terms last ih =>
    rw [weighted_concat, evalAt_axpy, ih, List.map_append, List.sum_append, List.map_singleton,
      List.sum_singleton]

/-- No Gram entries and function values tell the expressions apart. -/
def Equivalent (e f : Expression ℝ) : Prop :=
  ∀ gram value, e.evalAt gram value = f.evalAt gram value

theorem Equivalent.eq {e f : Expression ℝ} (h : e.Equivalent f) (he : e.Canonical)
    (hf : f.Canonical) : e = f :=
  he.eq_of_forall_eval_eq (E := ℝ) hf fun r => h r.gram r.value

end Expression

end Values

section Groups

variable {κ : Type} [DecidableEq κ]

/-- A weighted sum over occurrences of keys is one over the keys, each with its total weight. -/
theorem sum_map_eq_sum_dedup (occurrences : List (κ × ℝ)) (f : κ → ℝ) :
    (occurrences.map fun p => p.2 * f p.1).sum =
      ((occurrences.map (·.1)).dedup.map fun k =>
        ((occurrences.filter (·.1 = k)).map (·.2)).sum * f k).sum := by
  have hOver (keys : Finset κ) (hKeys : ∀ p ∈ occurrences, p.1 ∈ keys) :
      (occurrences.map fun p => p.2 * f p.1).sum =
        ∑ k ∈ keys, ((occurrences.filter (·.1 = k)).map (·.2)).sum * f k := by
    induction occurrences with
    | nil => simp
    | cons head occurrences ih =>
      obtain ⟨hHead, hRest⟩ := List.forall_mem_cons.mp hKeys
      have hSplit (k : κ) : (((head :: occurrences).filter (·.1 = k)).map (·.2)).sum * f k =
          (if head.1 = k then head.2 * f k else 0) +
            ((occurrences.filter (·.1 = k)).map (·.2)).sum * f k := by
        by_cases hSame : head.1 = k <;> simp [hSame, add_mul]
      rw [List.map_cons, List.sum_cons, ih hRest, Finset.sum_congr rfl fun k _ => hSplit k,
        Finset.sum_add_distrib, Finset.sum_ite_eq, if_pos hHead]
  rw [hOver (occurrences.map (·.1)).dedup.toFinset fun p hp =>
    List.mem_toFinset.mpr (List.mem_dedup.mpr (List.mem_map_of_mem hp))]
  exact List.sum_toFinset _ (List.nodup_dedup _)

end Groups

end PerformanceEstimation
