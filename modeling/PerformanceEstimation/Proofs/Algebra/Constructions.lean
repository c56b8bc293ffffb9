import Mathlib
import PerformanceEstimation.Proofs.Algebra.Realizations

/-!
# Constructions

A `Construction` records the operations by which a point or an expression comes about. Carrying the
operations out gives its `result`; reading them in a realization as what they are called gives its
`meaning`. The result is in canonical form whatever the construction is (`canonical_result`), and
stands for the meaning in every realization (`point_result`, `eval_result`).
-/

set_option autoImplicit false

namespace PerformanceEstimation

section Form

variable {α : Type} [Scalar α]

theorem Terms.canonical_singleton {κ : Type} [Key κ] (k : κ) {a : α}
    (h : Scalar.isZero a = false) : Canonical [(k, a)] :=
  canonical_cons_iff.mpr ⟨by simp, h, canonical_nil⟩

/-- The form in which the operations leave a point. -/
def Point.Canonical (p : Point α) : Prop :=
  p.terms.Canonical

namespace Point.Canonical

theorem zero : (0 : Point α).Canonical :=
  Terms.canonical_nil

theorem axpy {p x : Point α} (hp : p.Canonical) (c : α) (hx : x.Canonical) :
    (p.axpy c x).Canonical :=
  Terms.Canonical.axpy hp c hx

theorem scale {p : Point α} (hp : p.Canonical) (c : α) : (p.scale c).Canonical := by
  unfold Point.scale
  split
  · exact zero
  · refine ⟨List.Pairwise.filter _ ?_, fun term hTerm => ?_⟩
    · exact List.pairwise_map.mpr hp.ascending
    · simpa using (List.mem_filter.mp hTerm).2

theorem add {p q : Point α} (hp : p.Canonical) (hq : q.Canonical) : (p + q).Canonical :=
  hp.axpy _ hq

theorem sub {p q : Point α} (hp : p.Canonical) (hq : q.Canonical) : (p - q).Canonical :=
  hp.axpy _ hq

/-- The products of one basis vector keep the order of the terms of the point. -/
theorem row {q : Point α} (hq : q.Canonical) (i : BasisIndex) (c : α) :
    Expression.Canonical ⟨[], q.terms.map fun (j, a) => (BasisPair.of i j, a), c⟩ where
  values := Terms.canonical_nil
  gram :=
    { ascending := List.pairwise_map.mpr (hq.ascending.imp fun h => BasisPair.of_lt_of i h)
      nonzero := by
        intro term hTerm
        obtain ⟨old, hOld, rfl⟩ := List.mem_map.mp hTerm
        exact hq.nonzero old hOld }
  upper := by
    intro term hTerm
    obtain ⟨old, -, rfl⟩ := List.mem_map.mp hTerm
    exact BasisPair.row_le_col_of i old.1

theorem inner (p : Point α) {q : Point α} (hq : q.Canonical) : (p.inner q).Canonical := by
  -- every pass of the expansion adds the row of one basis vector
  have hRows (ps : Terms BasisIndex α) {t : Terms BasisPair α} {c : α}
      (ht : Expression.Canonical ⟨[], t, c⟩) :
      Expression.Canonical ⟨[], ps.foldl
        (fun t (i, c) => t.axpy c (q.terms.map fun (j, c') => (BasisPair.of i j, c'))) t, c⟩ := by
    induction ps generalizing t with
    | nil => exact ht
    | cons head ps ih =>
      have hStep := ht.axpy head.2 (hq.row head.1 c)
      exact ih ⟨hStep.values, hStep.gram, hStep.upper⟩
  exact hRows p.terms ⟨Terms.canonical_nil, Terms.canonical_nil, fun _ hTerm => nomatch hTerm⟩

end Point.Canonical

namespace Expression

theorem canonical_const (c : α) : (const c).Canonical where
  values := Terms.canonical_nil
  gram := Terms.canonical_nil
  upper _ hTerm := nomatch hTerm

namespace Canonical

variable {e x : Expression α}

theorem scale (he : e.Canonical) (c : α) : (e.scale c).Canonical :=
  (canonical_const _).axpy c he

theorem add (he : e.Canonical) (hx : x.Canonical) : (e + x).Canonical :=
  he.axpy _ hx

theorem sub (he : e.Canonical) (hx : x.Canonical) : (e - x).Canonical :=
  he.axpy _ hx

theorem mul (he : e.Canonical) (c : α) : (c * e).Canonical :=
  he.scale c

end Canonical

end Expression

end Form

theorem Point.canonical_ofBasis (i : BasisIndex) : (ofBasis i : Point ℝ).Canonical :=
  Terms.canonical_singleton i (by simp)

theorem Expression.canonical_ofValue (k : ValueIndex) : (ofValue k : Expression ℝ).Canonical where
  values := Terms.canonical_singleton k (by simp)
  gram := Terms.canonical_nil
  upper _ hTerm := nomatch hTerm

/-- Operations on points, from the basis vectors on. -/
inductive Point.Construction where
  | zero
  | basis (i : BasisIndex)
  | axpy (p : Construction) (c : ℝ) (x : Construction)
  | scale (p : Construction) (c : ℝ)
  | add (p q : Construction)
  | sub (p q : Construction)
  | neg (p : Construction)
  | mul (c : ℝ) (p : Construction)

namespace Point.Construction

noncomputable def result : Construction → Point ℝ
  | zero => 0
  | basis i => .ofBasis i
  | axpy p c x => p.result.axpy c x.result
  | scale p c => p.result.scale c
  | add p q => p.result + q.result
  | sub p q => p.result - q.result
  | neg p => -p.result
  | mul c p => c * p.result

variable {E : Type*} [NormedAddCommGroup E] [InnerProductSpace ℝ E]

/-- The vector that the operations form of the basis. -/
noncomputable def meaning (r : Realization E) : Construction → E
  | zero => 0
  | basis i => r.basis i
  | axpy p c x => c • x.meaning r + p.meaning r
  | scale p c => c • p.meaning r
  | add p q => p.meaning r + q.meaning r
  | sub p q => p.meaning r - q.meaning r
  | neg p => -p.meaning r
  | mul c p => c • p.meaning r

theorem canonical_result (p : Construction) : p.result.Canonical := by
  induction p with
  | zero => exact .zero
  | basis i => exact canonical_ofBasis i
  | axpy p c x ihp ihx => exact ihp.axpy c ihx
  | scale p c ih => exact ih.scale c
  | add p q ihp ihq => exact ihp.add ihq
  | sub p q ihp ihq => exact ihp.sub ihq
  | neg p ih => exact ih.scale _
  | mul c p ih => exact ih.scale c

theorem point_result (r : Realization E) (p : Construction) :
    r.point p.result = p.meaning r := by
  induction p with
  | zero => exact r.point_zero
  | basis i => exact r.point_ofBasis i
  | axpy p c x ihp ihx => rw [result, r.point_axpy, ihp, ihx, meaning, add_comm]
  | scale p c ih => rw [result, r.point_scale, ih, meaning]
  | add p q ihp ihq => rw [result, r.point_add, ihp, ihq, meaning]
  | sub p q ihp ihq => rw [result, r.point_sub, ihp, ihq, meaning]
  | neg p ih => rw [result, r.point_neg, ih, meaning]
  | mul c p ih => rw [result, r.point_mul, ih, meaning]

end Point.Construction

inductive Expression.Construction where
  | zero
  | const (c : ℝ)
  | value (k : ValueIndex)
  | inner (p q : Point.Construction)
  | normSq (p : Point.Construction)
  | axpy (e : Construction) (c : ℝ) (x : Construction)
  | scale (e : Construction) (c : ℝ)
  | add (e x : Construction)
  | sub (e x : Construction)
  | addConst (e : Construction) (c : ℝ)
  | subConst (e : Construction) (c : ℝ)
  | neg (e : Construction)
  | mul (c : ℝ) (e : Construction)
  | linearPart (e : Construction)

namespace Expression.Construction

noncomputable def result : Construction → Expression ℝ
  | zero => 0
  | const c => .const c
  | value k => .ofValue k
  | inner p q => p.result.inner q.result
  | normSq p => p.result.normSq
  | axpy e c x => e.result.axpy c x.result
  | scale e c => e.result.scale c
  | add e x => e.result + x.result
  | sub e x => e.result - x.result
  | addConst e c => e.result.addConst c
  | subConst e c => e.result.subConst c
  | neg e => -e.result
  | mul c e => c * e.result
  | linearPart e => e.result.linearPart

variable {E : Type*} [NormedAddCommGroup E] [InnerProductSpace ℝ E]

/-- The number that the operations form of the basis and the values. The linear part is what
remains without the number at which all unknowns vanish. -/
noncomputable def meaning : Construction → Realization E → ℝ
  | zero, _ => 0
  | const c, _ => c
  | value k, r => r.value k
  | inner p q, r => Inner.inner ℝ (p.meaning r) (q.meaning r)
  | normSq p, r => ‖p.meaning r‖ ^ 2
  | axpy e c x, r => c * x.meaning r + e.meaning r
  | scale e c, r => c * e.meaning r
  | add e x, r => e.meaning r + x.meaning r
  | sub e x, r => e.meaning r - x.meaning r
  | addConst e c, r => e.meaning r + c
  | subConst e c, r => e.meaning r - c
  | neg e, r => -e.meaning r
  | mul c e, r => c * e.meaning r
  | linearPart e, r => e.meaning r - e.meaning (⟨fun _ => 0, fun _ => 0⟩ : Realization E)

theorem canonical_result (e : Construction) : e.result.Canonical := by
  induction e with
  | zero => exact canonical_const _
  | const c => exact canonical_const c
  | value k => exact canonical_ofValue k
  | inner p q => exact q.canonical_result.inner _
  | normSq p => exact p.canonical_result.inner _
  | axpy e c x ihe ihx => exact ihe.axpy c ihx
  | scale e c ih => exact ih.scale c
  | add e x ihe ihx => exact ihe.add ihx
  | sub e x ihe ihx => exact ihe.sub ihx
  | addConst e c ih => exact ⟨ih.values, ih.gram, ih.upper⟩
  | subConst e c ih => exact ih.subConst c
  | neg e ih => exact ih.scale _
  | mul c e ih => exact ih.mul c
  | linearPart e ih => exact ⟨ih.values, ih.gram, ih.upper⟩

theorem eval_result (e : Construction) (r : Realization E) : r.eval e.result = e.meaning r := by
  -- by induction for all realizations at once: the linear part refers to a second one
  induction e generalizing r with
  | zero => exact r.eval_zero
  | const c => exact r.eval_const c
  | value k => exact r.eval_ofValue k
  | inner p q => rw [result, r.eval_inner, p.point_result, q.point_result, meaning]
  | normSq p => rw [result, r.eval_normSq, p.point_result, meaning]
  | axpy e c x ihe ihx => rw [result, r.eval_axpy, ihe, ihx, meaning, add_comm]
  | scale e c ih => rw [result, r.eval_scale, ih, meaning]
  | add e x ihe ihx => rw [result, r.eval_add, ihe, ihx, meaning]
  | sub e x ihe ihx => rw [result, r.eval_sub, ihe, ihx, meaning]
  | addConst e c ih => rw [result, r.eval_addConst, ih, meaning]
  | subConst e c ih => rw [result, r.eval_subConst, ih, meaning]
  | neg e ih => rw [result, r.eval_neg, ih, meaning]
  | mul c e ih => rw [result, r.eval_mul, ih, meaning]
  | linearPart e ih =>
    rw [result, r.eval_linearPart, meaning, ← ih, ← ih, Realization.eval_vanishing]

end Expression.Construction

end PerformanceEstimation
