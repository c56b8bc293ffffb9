import PerformanceEstimation.Scalar

/-!
# Sparse linear combinations

A `Terms κ α` is a list of keys with their coefficients. The operations keep the **canonical**
form `Terms.Canonical`: keys strictly ascending and no coefficient equal to zero. A coefficient
which is no number is kept, since it is not equal to zero.

`Terms.add` adds to one coefficient, `Terms.axpy` adds a multiple of a whole combination, which is
the same as adding its terms one after the other (`axpy_eq_foldl_add`). Both preserve the canonical
form (`Canonical.add`, `Canonical.axpy`).
-/

set_option autoImplicit false

namespace PerformanceEstimation

open Scalar

/-- A strict total order on keys. -/
class Key (κ : Type) extends LT κ where
  decideLt : DecidableLT κ
  decideEq : DecidableEq κ
  lt_irrefl : ∀ k : κ, ¬ k < k
  lt_trans : ∀ i j k : κ, i < j → j < k → i < k
  lt_of_not_lt_of_ne : ∀ i j : κ, ¬ i < j → i ≠ j → j < i

instance Key.instDecidableLT (κ : Type) [Key κ] : DecidableLT κ := Key.decideLt

instance Key.instDecidableEq (κ : Type) [Key κ] : DecidableEq κ := Key.decideEq

abbrev Terms (κ α : Type) := List (κ × α)

namespace Terms

variable {κ α : Type} [Key κ] [Scalar α]

/-- Coefficient of a key, zero for a key which does not occur. -/
def coefficient (t : Terms κ α) (k : κ) : α :=
  (t.lookup k).getD 0

/-- Put a term in front, unless its coefficient is zero. -/
def consNonzero (k : κ) (a : α) (t : Terms κ α) : Terms κ α :=
  if isZero a then t else (k, a) :: t

/-- Add `a` to the coefficient of `k`, and let `tail` act on the terms with larger keys. A sum of
zero removes the term. -/
def addThen (k : κ) (a : α) (tail : Terms κ α → Terms κ α) : Terms κ α → Terms κ α
  | [] => consNonzero k (0 + a) (tail [])
  | (j, b) :: rest =>
    if k < j then consNonzero k (0 + a) (tail ((j, b) :: rest))
    else if k = j then consNonzero k (b + a) (tail rest)
    else (j, b) :: addThen k a tail rest

def add (k : κ) (a : α) : Terms κ α → Terms κ α :=
  addThen k a id

/-- Add `c` times the combination `x`, whose keys ascend, in one pass. -/
def axpy (t : Terms κ α) (c : α) : Terms κ α → Terms κ α
  | [] => t
  | (k, a) :: x => addThen k (c * a) (fun rest => axpy rest c x) t

/-- Keys strictly ascending, no coefficient equal to zero. -/
structure Canonical (t : Terms κ α) : Prop where
  ascending : t.Pairwise (·.1 < ·.1)
  nonzero : ∀ term ∈ t, isZero term.2 = false

theorem canonical_nil : Canonical ([] : Terms κ α) :=
  ⟨List.Pairwise.nil, by simp⟩

theorem canonical_cons_iff {k : κ} {a : α} {t : Terms κ α} :
    Canonical ((k, a) :: t) ↔ (∀ term ∈ t, k < term.1) ∧ isZero a = false ∧ Canonical t := by
  constructor
  · rintro ⟨ascending, nonzero⟩
    rw [List.pairwise_cons] at ascending
    exact ⟨ascending.1, nonzero _ List.mem_cons_self, ascending.2,
      fun term h => nonzero term (List.mem_cons_of_mem _ h)⟩
  · rintro ⟨below, ha, ascending, nonzero⟩
    refine ⟨List.pairwise_cons.2 ⟨below, ascending⟩, fun term h => ?_⟩
    rcases List.mem_cons.1 h with rfl | h
    · exact ha
    · exact nonzero term h

theorem canonical_consNonzero {k : κ} {a : α} {t : Terms κ α} (ht : Canonical t)
    (below : ∀ term ∈ t, k < term.1) : Canonical (consNonzero k a t) := by
  unfold consNonzero
  split
  · exact ht
  · rename_i h
    exact canonical_cons_iff.2 ⟨below, by simpa using h, ht⟩

omit [Key κ] in
theorem eq_or_mem_of_mem_consNonzero {k : κ} {a : α} {t : Terms κ α} {term : κ × α}
    (h : term ∈ consNonzero k a t) : term = (k, a) ∨ term ∈ t := by
  unfold consNonzero at h
  split at h
  · exact .inr h
  · exact List.mem_cons.1 h

theorem key_eq_or_mem_of_mem_add {k : κ} {a : α} {t : Terms κ α} {term : κ × α}
    (h : term ∈ add k a t) : term.1 = k ∨ term ∈ t := by
  have front {b : α} {t : Terms κ α} (h : term ∈ consNonzero k b t) : term.1 = k ∨ term ∈ t :=
    (eq_or_mem_of_mem_consNonzero h).imp_left (congrArg Prod.fst)
  induction t with
  | nil => exact front h
  | cons head rest ih =>
    simp only [add, addThen] at h
    split at h
    · exact front h
    · split at h
      · exact (front h).imp_right (List.mem_cons_of_mem _)
      · rcases List.mem_cons.1 h with rfl | h
        · exact .inr List.mem_cons_self
        · exact (ih h).imp_right (List.mem_cons_of_mem _)

theorem Canonical.add {t : Terms κ α} (ht : Canonical t) (k : κ) (a : α) :
    Canonical (Terms.add k a t) := by
  induction t with
  | nil => exact canonical_consNonzero ht (by simp)
  | cons head rest ih =>
    obtain ⟨j, b⟩ := head
    obtain ⟨below, hb, hrest⟩ := canonical_cons_iff.1 ht
    simp only [Terms.add, addThen]
    split
    · rename_i hkj
      refine canonical_consNonzero ht fun term h => ?_
      rcases List.mem_cons.1 h with rfl | h
      · exact hkj
      · exact Key.lt_trans _ _ _ hkj (below term h)
    · rename_i hkj
      split
      · rename_i hkj'
        exact canonical_consNonzero hrest (hkj' ▸ below)
      · rename_i hne
        refine canonical_cons_iff.2 ⟨fun term h => ?_, hb, ih hrest⟩
        rcases key_eq_or_mem_of_mem_add h with heq | h
        · exact heq ▸ Key.lt_of_not_lt_of_ne _ _ hkj hne
        · exact below term h

theorem axpy_cons_of_lt {j : κ} {b c : α} {t x : Terms κ α} (h : ∀ term ∈ x, j < term.1) :
    axpy ((j, b) :: t) c x = (j, b) :: t.axpy c x := by
  cases x with
  | nil => rfl
  | cons head x =>
    have hlt : j < head.1 := h head List.mem_cons_self
    have hnlt : ¬ head.1 < j := fun h' => Key.lt_irrefl _ (Key.lt_trans _ _ _ hlt h')
    have hne : head.1 ≠ j := fun h' => Key.lt_irrefl j (h' ▸ hlt)
    simp [axpy, addThen, hnlt, hne]

theorem axpy_consNonzero {j : κ} {b c : α} {t x : Terms κ α} (h : ∀ term ∈ x, j < term.1) :
    (consNonzero j b t).axpy c x = consNonzero j b (t.axpy c x) := by
  unfold consNonzero
  split
  · rfl
  · exact axpy_cons_of_lt h

theorem axpy_cons {k : κ} {a c : α} {t x : Terms κ α} (h : ∀ term ∈ x, k < term.1) :
    t.axpy c ((k, a) :: x) = (add k (c * a) t).axpy c x := by
  induction t with
  | nil => exact (axpy_consNonzero h).symm
  | cons head t ih =>
    obtain ⟨j, b⟩ := head
    simp only [axpy, add, addThen, id] at ih ⊢
    split
    · exact (axpy_consNonzero h).symm
    · split
      · exact (axpy_consNonzero h).symm
      · rename_i hkj hne
        have hjk := Key.lt_of_not_lt_of_ne _ _ hkj hne
        rw [axpy_cons_of_lt fun term hterm => Key.lt_trans _ _ _ hjk (h term hterm), ih]

/-- A multiple is added term by term. -/
theorem axpy_eq_foldl_add {c : α} {t x : Terms κ α} (h : x.Pairwise (·.1 < ·.1)) :
    t.axpy c x = x.foldl (fun t term => add term.1 (c * term.2) t) t := by
  induction x generalizing t with
  | nil => rfl
  | cons head x ih =>
    rw [List.pairwise_cons] at h
    rw [axpy_cons h.1, ih h.2, List.foldl_cons]

theorem Canonical.axpy {t x : Terms κ α} (ht : Canonical t) (c : α) (hx : Canonical x) :
    Canonical (t.axpy c x) := by
  rw [axpy_eq_foldl_add hx.ascending]
  clear hx
  induction x generalizing t with
  | nil => exact ht
  | cons term x ih => exact ih (ht.add term.1 (c * term.2))

end Terms

end PerformanceEstimation
