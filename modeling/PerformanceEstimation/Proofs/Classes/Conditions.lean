import Mathlib
import PerformanceEstimation.FunctionClass
import PerformanceEstimation.Proofs.Algebra.Expressions

/-!
# Conditions of a class

The condition of a class on its triples is a rule for every pair of positions, and for functions of
bounded subgradients one more for every triple. The constraints that a class generates leave out
those that hold trivially, and say the same (`interpolation_hold_iff`).
-/

set_option autoImplicit false

namespace PerformanceEstimation

namespace FunctionClass

variable {α : Type} [Scalar α]

def pairRule : FunctionClass α → Triple α → Triple α → Constraint α
  | convex, tk, tl | convexLipschitz _, tk, tl => convexRule tk tl
  | stronglyConvex mu, tk, tl => stronglyConvexRule tk tl mu
  | smooth l, tk, tl => smoothRule tk tl l
  | smoothConvex l, tk, tl => smoothConvexRule tk tl l
  | smoothStronglyConvex mu l, tk, tl => smoothStronglyConvexRule tk tl mu l
  | monotone, tk, tl => monotoneRule tk tl
  | stronglyMonotone mu, tk, tl => stronglyMonotoneRule tk tl mu
  | lipschitz l, tk, tl => lipschitzRule tk tl l
  | cocoercive beta, tk, tl => cocoerciveRule tk tl beta
  | custom _ _ rule, tk, tl => rule tk tl

omit [Scalar α] in
/-- Whether the rule is for unordered pairs. -/
def isOperator : FunctionClass α → Bool
  | monotone | stronglyMonotone _ | lipschitz _ | cocoercive _ => true
  | _ => false

omit [Scalar α] in
def Relates (c : FunctionClass α) (k l : ℕ) : Prop :=
  if c.isOperator then k < l else k ≠ l

/-- The numbers satisfy the condition of the class on the triples. -/
structure HoldsOn (gram : BasisPair → α) (value : ValueIndex → α) (c : FunctionClass α)
    (triples : List (Triple α)) : Prop where
  pair : ∀ k l tk tl, triples[k]? = some tk → triples[l]? = some tl → c.Relates k l →
    (c.pairRule tk tl).HoldsAt gram value
  single : ∀ m, c = convexLipschitz m → ∀ t ∈ triples, (subgradientRule m t).HoldsAt gram value

end FunctionClass

namespace Interpolation

variable {α : Type} [Scalar α] {triples : List (Triple α)} {i : Interpolation α}

theorem mem_nontrivial?_iff {k l : ℕ} {c : Constraint α} :
    nontrivial? k l c = some i ↔ c.isTriviallySatisfied = false ∧ i = ⟨k, l, c⟩ := by
  unfold nontrivial?
  split
  · rename_i h
    simp [h]
  · rename_i h
    simp [h, eq_comm]

theorem mem_pairs_iff (r : ℕ → ℕ → Prop) [DecidableRel r]
    {rule : Triple α → Triple α → Constraint α} :
    i ∈ triples.zipIdx.flatMap (fun (tk, k) => triples.zipIdx.filterMap fun (tl, l) =>
        if r k l then nontrivial? k l (rule tk tl) else none) ↔
      i.constraint.isTriviallySatisfied = false ∧ r i.k i.l ∧
        ∃ tk tl, triples[i.k]? = some tk ∧ triples[i.l]? = some tl ∧
          i.constraint = rule tk tl := by
  simp only [List.mem_flatMap, List.mem_filterMap, Prod.exists, List.mk_mem_zipIdx_iff_getElem?]
  constructor
  · rintro ⟨tk, k, hk, tl, l, hl, hi⟩
    split at hi
    · rename_i hRelates
      obtain ⟨hTrivial, rfl⟩ := mem_nontrivial?_iff.mp hi
      exact ⟨hTrivial, hRelates, tk, tl, hk, hl, rfl⟩
    · cases hi
  · rintro ⟨hTrivial, hRelates, tk, tl, hk, hl, hRule⟩
    refine ⟨tk, i.k, hk, tl, i.l, hl, ?_⟩
    rw [if_pos hRelates, mem_nontrivial?_iff, ← hRule]
    exact ⟨hTrivial, rfl⟩

theorem mem_orderedPairs_iff {rule : Triple α → Triple α → Constraint α} :
    i ∈ orderedPairs rule triples ↔ i.constraint.isTriviallySatisfied = false ∧ i.k ≠ i.l ∧
      ∃ tk tl, triples[i.k]? = some tk ∧ triples[i.l]? = some tl ∧ i.constraint = rule tk tl := by
  rw [← mem_pairs_iff (· ≠ ·)]
  simp only [orderedPairs, ite_not]

theorem mem_unorderedPairs_iff {rule : Triple α → Triple α → Constraint α} :
    i ∈ unorderedPairs rule triples ↔ i.constraint.isTriviallySatisfied = false ∧ i.k < i.l ∧
      ∃ tk tl, triples[i.k]? = some tk ∧ triples[i.l]? = some tl ∧ i.constraint = rule tk tl :=
  mem_pairs_iff (· < ·)

theorem mem_eachTriple_iff {rule : Triple α → Constraint α} :
    i ∈ eachTriple rule triples ↔ i.constraint.isTriviallySatisfied = false ∧ i.k = i.l ∧
      ∃ t, triples[i.k]? = some t ∧ i.constraint = rule t := by
  simp only [eachTriple, List.mem_filterMap, Prod.exists, List.mk_mem_zipIdx_iff_getElem?]
  constructor
  · rintro ⟨t, k, hk, hi⟩
    obtain ⟨hTrivial, rfl⟩ := mem_nontrivial?_iff.mp hi
    exact ⟨hTrivial, rfl, t, hk, rfl⟩
  · rintro ⟨hTrivial, hEq, t, hk, hRule⟩
    refine ⟨t, i.k, hk, ?_⟩
    rw [mem_nontrivial?_iff, ← hRule]
    refine ⟨hTrivial, ?_⟩
    cases i
    cases hEq
    rfl

end Interpolation

namespace FunctionClass

open Interpolation

variable {α : Type} [Scalar α] {triples : List (Triple α)}

/-- What a class generates: its rule at the positions it relates, and the bound of the subgradients
with a position twice. -/
theorem mem_interpolation_iff {c : FunctionClass α} {i : Interpolation α} :
    i ∈ c.interpolation triples ↔ i.constraint.isTriviallySatisfied = false ∧
      ((c.Relates i.k i.l ∧ ∃ tk tl, triples[i.k]? = some tk ∧ triples[i.l]? = some tl ∧
        i.constraint = c.pairRule tk tl) ∨
      (i.k = i.l ∧ ∃ m t, c = convexLipschitz m ∧ triples[i.k]? = some t ∧
        i.constraint = subgradientRule m t)) := by
  cases c with
  | convexLipschitz m =>
    simp only [interpolation, List.mem_append, mem_orderedPairs_iff, mem_eachTriple_iff, Relates,
      isOperator, pairRule, convexLipschitz.injEq]
    constructor
    · rintro (⟨hTrivial, hEq, t, hk, hRule⟩ | ⟨hTrivial, hNe, hPair⟩)
      · exact ⟨hTrivial, .inr ⟨hEq, m, t, rfl, hk, hRule⟩⟩
      · exact ⟨hTrivial, .inl ⟨hNe, hPair⟩⟩
    · rintro ⟨hTrivial, ⟨hNe, hPair⟩ | ⟨hEq, _, t, rfl, hk, hRule⟩⟩
      · exact .inr ⟨hTrivial, hNe, hPair⟩
      · exact .inl ⟨hTrivial, hEq, t, hk, hRule⟩
  | _ => simp [interpolation, mem_orderedPairs_iff, mem_unorderedPairs_iff, Relates, isOperator,
      pairRule]

end FunctionClass

/-- The generated constraints hold exactly where the condition of the class does. -/
theorem FunctionClass.interpolation_hold_iff (gram : BasisPair → ℝ) (value : ValueIndex → ℝ)
    (c : FunctionClass ℝ) (triples : List (Triple ℝ)) :
    (∀ i ∈ c.interpolation triples, i.constraint.HoldsAt gram value) ↔
      c.HoldsOn gram value triples := by
  constructor
  · intro h
    -- a constraint that was left out holds at any numbers
    have hRule : ∀ i : Interpolation ℝ, (i.constraint.isTriviallySatisfied = false →
        i ∈ c.interpolation triples) → i.constraint.HoldsAt gram value := by
      intro i hi
      cases hTrivial : i.constraint.isTriviallySatisfied with
      | true => exact Constraint.holdsAt_of_isTriviallySatisfied gram value hTrivial
      | false => exact h i (hi hTrivial)
    constructor
    · intro k l tk tl hk hl hRelates
      exact hRule ⟨k, l, c.pairRule tk tl⟩ fun hTrivial =>
        mem_interpolation_iff.mpr ⟨hTrivial, .inl ⟨hRelates, tk, tl, hk, hl, rfl⟩⟩
    · intro m hClass t hMem
      obtain ⟨k, hk⟩ := List.mem_iff_getElem?.mp hMem
      exact hRule ⟨k, k, subgradientRule m t⟩ fun hTrivial =>
        mem_interpolation_iff.mpr ⟨hTrivial, .inr ⟨rfl, m, t, hClass, hk, rfl⟩⟩
  · intro h i hi
    obtain ⟨-, ⟨hRelates, tk, tl, hk, hl, hRule⟩ | ⟨-, m, t, hClass, hk, hRule⟩⟩ :=
      mem_interpolation_iff.mp hi
    · rw [hRule]
      exact h.pair i.k i.l tk tl hk hl hRelates
    · rw [hRule]
      exact h.single m hClass t (List.mem_of_getElem? hk)

namespace Interpolation

variable {α : Type} [Scalar α] {triples : List (Triple α)}

omit [Scalar α] in
def positions (i : Interpolation α) : ℕ × ℕ :=
  (i.k, i.l)

theorem positions_of_nontrivial? {i : Interpolation α} {k l : ℕ} {c : Constraint α}
    (h : nontrivial? k l c = some i) : i.positions = (k, l) := by
  obtain ⟨-, rfl⟩ := mem_nontrivial?_iff.mp h
  rfl

omit [Scalar α] in
theorem pairwise_zipIdx : triples.zipIdx.Pairwise fun p q => p.2 ≠ q.2 :=
  List.pairwise_map.mp (List.nodup_zipIdx_map_snd triples)

theorem nodup_positions_pairs (r : ℕ → ℕ → Prop) [DecidableRel r]
    (rule : Triple α → Triple α → Constraint α) :
    ((triples.zipIdx.flatMap fun (tk, k) => triples.zipIdx.filterMap fun (tl, l) =>
      if r k l then nontrivial? k l (rule tk tl) else none).map positions).Nodup := by
  have hPair {tk tl : Triple α} {k l : ℕ} {i : Interpolation α}
      (h : (if r k l then nontrivial? k l (rule tk tl) else none) = some i) :
      i.positions = (k, l) := by
    split at h
    · exact positions_of_nontrivial? h
    · cases h
  rw [List.Nodup, List.pairwise_map, List.pairwise_flatMap]
  constructor
  · -- within one pass the second positions differ
    rintro ⟨tk, k⟩ -
    rw [List.pairwise_filterMap]
    refine pairwise_zipIdx.imp ?_
    rintro ⟨tl, l⟩ ⟨tl', l'⟩ hne i hi j hj heq
    rw [hPair hi, hPair hj] at heq
    exact hne (Prod.mk.inj heq).2
  · -- different passes differ in the first position
    refine pairwise_zipIdx.imp ?_
    rintro ⟨tk, k⟩ ⟨tk', k'⟩ hne i hi j hj heq
    obtain ⟨⟨tl, l⟩, -, hi⟩ := List.mem_filterMap.mp hi
    obtain ⟨⟨tl', l'⟩, -, hj⟩ := List.mem_filterMap.mp hj
    rw [hPair hi, hPair hj] at heq
    exact hne (Prod.mk.inj heq).1

theorem nodup_positions_orderedPairs (rule : Triple α → Triple α → Constraint α) :
    ((orderedPairs rule triples).map positions).Nodup := by
  have h := @nodup_positions_pairs α _ triples (· ≠ ·) _ rule
  simpa only [orderedPairs, ite_not] using h

theorem nodup_positions_unorderedPairs (rule : Triple α → Triple α → Constraint α) :
    ((unorderedPairs rule triples).map positions).Nodup :=
  nodup_positions_pairs (· < ·) rule

theorem nodup_positions_eachTriple (rule : Triple α → Constraint α) :
    ((eachTriple rule triples).map positions).Nodup := by
  rw [List.Nodup, List.pairwise_map, eachTriple, List.pairwise_filterMap]
  refine pairwise_zipIdx.imp ?_
  rintro ⟨t, k⟩ ⟨t', k'⟩ hne i hi j hj heq
  rw [positions_of_nontrivial? hi, positions_of_nontrivial? hj] at heq
  exact hne (Prod.mk.inj heq).1

end Interpolation

namespace FunctionClass

variable {α : Type} [Scalar α]

theorem nodup_positions_interpolation (c : FunctionClass α) (triples : List (Triple α)) :
    ((c.interpolation triples).map Interpolation.positions).Nodup := by
  cases c with
  | convexLipschitz m =>
    rw [interpolation, List.map_append, List.nodup_append]
    refine ⟨Interpolation.nodup_positions_eachTriple _,
      Interpolation.nodup_positions_orderedPairs _, ?_⟩
    -- a single triple is tagged with one position twice, a pair never is
    intro p hp q hq heq
    obtain ⟨i, hi, rfl⟩ := List.mem_map.mp hp
    obtain ⟨j, hj, rfl⟩ := List.mem_map.mp hq
    obtain ⟨-, hEq, -⟩ := Interpolation.mem_eachTriple_iff.mp hi
    obtain ⟨-, hNe, -⟩ := Interpolation.mem_orderedPairs_iff.mp hj
    obtain ⟨hk, hl⟩ := Prod.mk.inj heq
    exact hNe (hk.symm.trans (hEq.trans hl))
  | monotone | stronglyMonotone mu | lipschitz l | cocoercive beta =>
    rw [interpolation]
    exact Interpolation.nodup_positions_unorderedPairs _
  | convex | stronglyConvex mu | smooth l | smoothConvex l | smoothStronglyConvex mu l
  | custom name singleValued rule =>
    rw [interpolation]
    exact Interpolation.nodup_positions_orderedPairs _

end FunctionClass

end PerformanceEstimation
