import Mathlib
import PerformanceEstimation.Triple
import PerformanceEstimation.Proofs.Algebra.Expressions

/-!
# The unknowns that a symbol names

A point names basis vectors, an expression names Gram entries and function values. `Below` says that
all of them come before given positions. The operations name no unknown that their operands do not
name, whether or not the operands are in canonical form and whatever their coefficients.
-/

set_option autoImplicit false

namespace PerformanceEstimation

open Scalar

namespace Terms

variable {κ α : Type} [Scalar α] (P : κ × α → Prop)

theorem forall_consNonzero {k : κ} {a : α} {t : Terms κ α} (hNew : P (k, a))
    (ht : ∀ term ∈ t, P term) : ∀ term ∈ consNonzero k a t, P term := by
  intro term hTerm
  rcases eq_or_mem_of_mem_consNonzero hTerm with rfl | hTerm
  · exact hNew
  · exact ht term hTerm

variable [Key κ]

theorem forall_addThen {k : κ} {a : α} {tail : Terms κ α → Terms κ α} (hNew : P (k, 0 + a))
    (hSum : ∀ b, P (k, b) → P (k, b + a))
    (hTail : ∀ t : Terms κ α, (∀ term ∈ t, P term) → ∀ term ∈ tail t, P term)
    {t : Terms κ α} (ht : ∀ term ∈ t, P term) : ∀ term ∈ addThen k a tail t, P term := by
  induction t with
  | nil => exact forall_consNonzero P hNew (hTail [] ht)
  | cons head t ih =>
    obtain ⟨hHead, hRest⟩ := List.forall_mem_cons.mp ht
    rw [addThen]
    split
    · exact forall_consNonzero P hNew (hTail _ ht)
    · split
      · rename_i hKey
        exact forall_consNonzero P (hSum _ (hKey ▸ hHead)) (hTail _ hRest)
      · exact List.forall_mem_cons.mpr ⟨hHead, ih hRest⟩

/-- What holds of the terms before holds after, if it holds of the new terms and sums keep it. -/
theorem forall_axpy {c : α} {t x : Terms κ α} (hNew : ∀ term ∈ x, P (term.1, 0 + c * term.2))
    (hSum : ∀ term ∈ x, ∀ b, P (term.1, b) → P (term.1, b + c * term.2))
    (ht : ∀ term ∈ t, P term) : ∀ term ∈ t.axpy c x, P term := by
  induction x generalizing t with
  | nil => exact ht
  | cons head x ih =>
    obtain ⟨hNewHead, hNewRest⟩ := List.forall_mem_cons.mp hNew
    obtain ⟨hSumHead, hSumRest⟩ := List.forall_mem_cons.mp hSum
    exact forall_addThen P hNewHead hSumHead (fun t ht => ih hNewRest hSumRest ht) ht

theorem forall_key_axpy (P : κ → Prop) {c : α} {t x : Terms κ α} (ht : ∀ term ∈ t, P term.1)
    (hx : ∀ term ∈ x, P term.1) : ∀ term ∈ t.axpy c x, P term.1 :=
  forall_axpy (fun term => P term.1) hx (fun term hTerm _ _ => hx term hTerm) ht

end Terms

namespace Point

variable {α : Type} {n : ℕ}

def Below (n : ℕ) (p : Point α) : Prop :=
  ∀ term ∈ p.terms, term.1.pos < n

theorem Below.mono {m : ℕ} {p : Point α} (hp : p.Below n) (h : n ≤ m) : p.Below m :=
  fun term hTerm => (hp term hTerm).trans_le h

theorem below_zero : (0 : Point α).Below n := by
  intro term hTerm
  cases hTerm

variable [Scalar α]

theorem below_ofBasis {i : BasisIndex} (h : i.pos < n) : (ofBasis i : Point α).Below n := by
  intro term hTerm
  rw [List.mem_singleton.mp hTerm]
  exact h

theorem Below.axpy {p q : Point α} (hp : p.Below n) (c : α) (hq : q.Below n) :
    (p.axpy c q).Below n :=
  Terms.forall_key_axpy (fun i : BasisIndex => i.pos < n) hp hq

theorem Below.sub {p q : Point α} (hp : p.Below n) (hq : q.Below n) : (p - q).Below n :=
  hp.axpy _ hq

theorem Below.add {p q : Point α} (hp : p.Below n) (hq : q.Below n) : (p + q).Below n :=
  hp.axpy _ hq

theorem Below.scale {p : Point α} (hp : p.Below n) (c : α) : (p.scale c).Below n := by
  unfold Point.scale
  split
  · exact below_zero
  · intro term hTerm
    obtain ⟨old, hOld, rfl⟩ := List.mem_map.mp (List.mem_filter.mp hTerm).1
    exact hp old hOld

end Point

def BasisPair.Below (n : ℕ) (pair : BasisPair) : Prop :=
  pair.row.pos < n ∧ pair.col.pos < n

theorem BasisPair.below_of {i j : BasisIndex} {n : ℕ} (hi : i.pos < n) (hj : j.pos < n) :
    (BasisPair.of i j).Below n := by
  unfold BasisPair.of
  split
  · exact ⟨hi, hj⟩
  · exact ⟨hj, hi⟩

namespace Expression

variable {α : Type} {n k : ℕ}

structure Below (n k : ℕ) (e : Expression α) : Prop where
  gram : ∀ term ∈ e.gram, term.1.Below n
  values : ∀ term ∈ e.values, term.1.pos < k

theorem Below.mono {m l : ℕ} {e : Expression α} (he : e.Below n k) (hn : n ≤ m) (hk : k ≤ l) :
    e.Below m l where
  gram term hTerm := (he.gram term hTerm).imp (·.trans_le hn) (·.trans_le hn)
  values term hTerm := (he.values term hTerm).trans_le hk

theorem below_const (c : α) : (const c).Below n k where
  gram := by
    intro term hTerm
    cases hTerm
  values := by
    intro term hTerm
    cases hTerm

theorem Below.gramBelow {e : Expression α} (he : e.Below n k) : e.GramBelow n :=
  he.gram

variable [Scalar α]

theorem below_zero : (0 : Expression α).Below n k :=
  below_const _

theorem below_ofValue {i : ValueIndex} (h : i.pos < k) : (ofValue i : Expression α).Below n k where
  gram := by
    intro term hTerm
    cases hTerm
  values := by
    intro term hTerm
    rw [List.mem_singleton.mp hTerm]
    exact h

theorem Below.axpy {e x : Expression α} (he : e.Below n k) (c : α) (hx : x.Below n k) :
    (e.axpy c x).Below n k where
  gram := Terms.forall_key_axpy (BasisPair.Below n) he.gram hx.gram
  values := Terms.forall_key_axpy (fun i : ValueIndex => i.pos < k) he.values hx.values

theorem Below.sub {e x : Expression α} (he : e.Below n k) (hx : x.Below n k) :
    (e - x).Below n k :=
  he.axpy _ hx

theorem Below.add {e x : Expression α} (he : e.Below n k) (hx : x.Below n k) :
    (e + x).Below n k :=
  he.axpy _ hx

theorem Below.mul {e : Expression α} (he : e.Below n k) (c : α) : (c * e).Below n k :=
  below_zero.axpy c he

end Expression

namespace Point

variable {α : Type} [Scalar α] {n k : ℕ}

theorem forall_key_rows (P : BasisPair → Prop) {q : Point α} {ps : Terms BasisIndex α}
    (hPair : ∀ i ∈ ps, ∀ j ∈ q.terms, P (BasisPair.of i.1 j.1)) {t : Terms BasisPair α}
    (ht : ∀ term ∈ t, P term.1) :
    ∀ term ∈ ps.foldl (fun t (i, c) =>
      t.axpy c (q.terms.map fun (j, c') => (BasisPair.of i j, c'))) t, P term.1 := by
  induction ps generalizing t with
  | nil => exact ht
  | cons head ps ih =>
    obtain ⟨hHead, hRest⟩ := List.forall_mem_cons.mp hPair
    refine ih hRest (Terms.forall_key_axpy P ht ?_)
    intro term hTerm
    obtain ⟨old, hOld, rfl⟩ := List.mem_map.mp hTerm
    exact hHead old hOld

/-- An inner product names the entries of pairs of basis vectors of the two points. -/
theorem forall_key_inner (P : BasisPair → Prop) {p q : Point α}
    (hPair : ∀ i ∈ p.terms, ∀ j ∈ q.terms, P (BasisPair.of i.1 j.1)) :
    ∀ term ∈ (p.inner q).gram, P term.1 :=
  forall_key_rows P hPair fun _ hTerm => nomatch hTerm

theorem Below.inner {p q : Point α} (hp : p.Below n) (hq : q.Below n) :
    (p.inner q).Below n k where
  gram := forall_key_inner (BasisPair.Below n) fun i hi j hj =>
    BasisPair.below_of (hp i hi) (hq j hj)
  values := by
    intro term hTerm
    cases hTerm

theorem Below.normSq {p : Point α} (hp : p.Below n) : p.normSq.Below n k :=
  hp.inner hp

end Point

structure Triple.Below {α : Type} (n k : ℕ) (t : Triple α) : Prop where
  point : t.point.Below n
  gradient : t.gradient.Below n
  value : t.value.Below n k

theorem Triple.Below.mono {α : Type} {n k m l : ℕ} {t : Triple α} (ht : t.Below n k) (hn : n ≤ m)
    (hk : k ≤ l) : t.Below m l where
  point := ht.point.mono hn
  gradient := ht.gradient.mono hn
  value := ht.value.mono hn hk

end PerformanceEstimation
