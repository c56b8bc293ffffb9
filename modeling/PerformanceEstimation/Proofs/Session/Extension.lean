import Mathlib
import PerformanceEstimation.Proofs.Program.Feasibility
import PerformanceEstimation.Proofs.Session.Compilation
import PerformanceEstimation.Proofs.Session.Interface

/-!
# Extending a session

A session that grows keeps its constraints and triples, so its program keeps the rows of the earlier
one on the leading block of the Gram matrix. What is feasible later is feasible before, with the
same metric, and the worst case never increases (`worstCase_le_of_run`).

The program of a session has to refer to its own basis vectors for that. The rules of the built-in
classes name no others than their triples do; of a rule by hand this is asked (`RulesInside`).
-/

set_option autoImplicit false

namespace PerformanceEstimation

section Rules

open Scalar

variable {α : Type} [Scalar α] {n k : ℕ}

namespace Expression

theorem Below.le {e x : Expression α} (he : e.Below n k) (hx : x.Below n k) :
    (e.le x).lhs.Below n k :=
  he.sub hx

theorem Below.ge {e x : Expression α} (he : e.Below n k) (hx : x.Below n k) :
    (e.ge x).lhs.Below n k :=
  hx.sub he

end Expression

namespace FunctionClass

/-- Every rule but one by hand names only unknowns that its triples name. -/
theorem gramBelow_pairRule {c : FunctionClass α} {tk tl : Triple α} (hk : tk.Below n k)
    (hl : tl.Below n k) (hCustom : ∀ name singleValued rule,
      c = custom name singleValued rule → (rule tk tl).lhs.GramBelow n) :
    (c.pairRule tk tl).lhs.GramBelow n := by
  have hPoint := hk.point.sub hl.point
  have hGradient := hk.gradient.sub hl.gradient
  have hValue := hl.value.sub hk.value
  have hZero : (0 : Expression α).Below n k := Expression.below_zero
  have hConvex := hValue.add (hl.gradient.inner hPoint)
  have hDistance : (tk.point - tl.point).normSq.Below n k := hPoint.normSq
  have hChange : (tk.gradient - tl.gradient).normSq.Below n k := hGradient.normSq
  have hProduct : ((tk.gradient - tl.gradient).inner (tk.point - tl.point)).Below n k :=
    hGradient.inner hPoint
  cases c with
  | custom name singleValued rule => exact hCustom name singleValued rule rfl
  | convex | convexLipschitz m => exact (hConvex.le hZero).gramBelow
  | stronglyConvex mu => exact ((hConvex.add (hDistance.mul _)).le hZero).gramBelow
  | smooth l =>
    have hMean := ((hk.gradient.add hl.gradient).inner hPoint (k := k)).mul (1 / 2)
    exact ((((hValue.add hMean).add (hChange.mul _)).sub (hDistance.mul _)).le hZero).gramBelow
  | smoothConvex l => exact ((hConvex.add (hChange.mul _)).le hZero).gramBelow
  | smoothStronglyConvex mu l =>
    have hSquare := ((hChange.mul (1 / l)).add (hDistance.mul mu)).sub (hProduct.mul (2 * mu / l))
    exact ((hConvex.add (hSquare.mul _)).le hZero).gramBelow
  | monotone => exact (hProduct.ge hZero).gramBelow
  | stronglyMonotone mu => exact ((hDistance.mul _).le hProduct).gramBelow
  | lipschitz l => exact (hChange.le (hDistance.mul _)).gramBelow
  | cocoercive beta => exact ((hChange.mul _).le hProduct).gramBelow

theorem gramBelow_interpolation {c : FunctionClass α} {triples : List (Triple α)}
    (hTriples : ∀ t ∈ triples, t.Below n k)
    (hCustom : ∀ name singleValued rule, c = custom name singleValued rule →
      ∀ tk ∈ triples, ∀ tl ∈ triples, (rule tk tl).lhs.GramBelow n) :
    ∀ i ∈ c.interpolation triples, i.constraint.lhs.GramBelow n := by
  intro i hi
  obtain ⟨-, ⟨-, tk, tl, hk, hl, hRule⟩ | ⟨-, m, t, -, hk, hRule⟩⟩ := mem_interpolation_iff.mp hi
  · have hkMem := List.mem_of_getElem? hk
    have hlMem := List.mem_of_getElem? hl
    rw [hRule]
    exact gramBelow_pairRule (hTriples tk hkMem) (hTriples tl hlMem)
      fun name singleValued rule hClass => hCustom name singleValued rule hClass tk hkMem tl hlMem
  · rw [hRule]
    have hGradient := (hTriples t (List.mem_of_getElem? hk)).gradient
    exact (hGradient.normSq.le (k := k) (Expression.below_const _)).gramBelow

theorem HoldsOn.restrict {gram : BasisPair → α} {value : ValueIndex → α} {c : FunctionClass α}
    {triples triples' : List (Triple α)} (hPrefix : triples <+: triples')
    (h : c.HoldsOn gram value triples') : c.HoldsOn gram value triples where
  pair i j ti tj hi hj := by
    have hKept {m : ℕ} {t : Triple α} (hm : triples[m]? = some t) : triples'[m]? = some t := by
      obtain ⟨rest, rfl⟩ := hPrefix
      exact (List.getElem?_append_left (List.getElem?_eq_some_iff.mp hm).1).trans hm
    exact h.pair i j ti tj (hKept hi) (hKept hj)
  single m hClass t ht := h.single m hClass t (hPrefix.subset ht)

end FunctionClass

end Rules

section Blocks

variable {n d : ℕ} (G : SquareMatrix n) (h : d ≤ n) (value : ValueIndex → ℝ)

theorem entryAt_leadingBlock_of_below {p : BasisPair} (hp : p.Below d) :
    entryAt (leadingBlock G h) p = entryAt G p := by
  obtain ⟨hRow, hCol⟩ := hp
  rw [entryAt, entryAt, dif_pos ⟨hRow, hCol⟩, dif_pos ⟨hRow.trans_le h, hCol.trans_le h⟩]
  rfl

theorem evalAt_leadingBlock {e : Expression ℝ} (he : e.GramBelow d) :
    e.evalAt (entryAt (leadingBlock G h)) value = e.evalAt (entryAt G) value := by
  have hGram : e.gram.total (entryAt (leadingBlock G h)) = e.gram.total (entryAt G) :=
    congrArg List.sum (List.map_congr_left fun term hTerm =>
      congrArg (term.2 * ·) (entryAt_leadingBlock_of_below G h (he term hTerm)))
  rw [Expression.evalAt_eq_total, Expression.evalAt_eq_total, hGram]

theorem holdsAt_leadingBlock_iff {c : Constraint ℝ} (hc : c.lhs.GramBelow d) :
    c.HoldsAt (entryAt (leadingBlock G h)) value ↔ c.HoldsAt (entryAt G) value := by
  unfold Constraint.HoldsAt
  rw [evalAt_leadingBlock G h value hc]

end Blocks

namespace Session

section Inside

variable {α : Type} [Scalar α]

/-- The rules by hand name registered basis vectors only, at the triples of their functions. The
program has no place for a row with another vector. -/
def RulesInside (s : Session α) : Prop :=
  ∀ (f : ℕ) (name : String) (singleValued : Bool) (rule : Triple α → Triple α → Constraint α)
    (triples : List (Triple α)),
    s.functions[f]? = some (.leaf (.custom name singleValued rule) triples) →
    ∀ tk ∈ triples, ∀ tl ∈ triples, (rule tk tl).lhs.GramBelow s.basis.size

theorem gramBelow_compiled {s : Session α} (hs : s.WellFormed) (hRules : s.RulesInside) :
    ∀ entry ∈ s.declared.entries ++ s.interpolations,
      entry.constraint.lhs.GramBelow s.basis.size := by
  intro entry hEntry
  rcases List.mem_append.mp hEntry with hDeclared | hInterpolation
  · exact (hs.declared entry hDeclared).gramBelow
  · obtain ⟨f, cls, triples, i, hLeaf, hi, rfl⟩ := mem_interpolations_iff.mp hInterpolation
    refine FunctionClass.gramBelow_interpolation (hs.triples hLeaf) ?_ i hi
    rintro name singleValued rule rfl
    exact hRules f name singleValued rule triples hLeaf

end Inside

section Restriction

variable {s s' : Session ℝ} {gram : BasisPair → ℝ} {value : ValueIndex → ℝ}

theorem Precedes.compiled_hold (h : s.Precedes s')
    (hHold : ∀ entry ∈ s'.declared.entries ++ s'.interpolations,
      entry.constraint.HoldsAt gram value) :
    ∀ entry ∈ s.declared.entries ++ s.interpolations, entry.constraint.HoldsAt gram value := by
  obtain ⟨hDeclared, hInterpolations⟩ := List.forall_mem_append.mp hHold
  refine List.forall_mem_append.mpr ⟨fun entry hEntry => ?_, ?_⟩
  · exact hDeclared entry (h.declared.subset hEntry)
  · rw [interpolations_hold_iff] at hInterpolations ⊢
    intro f cls triples hLeaf
    obtain ⟨triples', hLeaf', hPrefix⟩ := h.leaf hLeaf
    exact (hInterpolations f cls triples' hLeaf').restrict hPrefix

theorem eq_of_compile {p : Program ℝ} {t : Session ℝ} (h : Action.compile s = .ok p t) :
    s.metric = some p.metric ∧ p.order = s.basis.size ∧ ∀ gram value,
      (∀ row ∈ p.rows, row.2.constraint.HoldsAt gram value) ↔
        ∀ entry ∈ s.declared.entries ++ s.interpolations, entry.constraint.HoldsAt gram value := by
  obtain ⟨-, -, store, metric, hStore, hMetric, hAssemble⟩ := compile_eq_ok_iff.mp h
  obtain ⟨-, rfl⟩ := Program.assemble_eq_ok_iff.mp hAssemble
  refine ⟨hMetric, rfl, fun gram value => ?_⟩
  rw [Program.rows_hold_iff_of_assemble gram value hAssemble, entries_of_compiledStore hStore]

/-- The leading block of what is feasible later is feasible before, and the metric is the same. -/
theorem Precedes.feasible_leadingBlock {p p' : Program ℝ} {t t' : Session ℝ} (h : s.Precedes s')
    (hs : s.WellFormed) (hRules : s.RulesInside) (hCompile : Action.compile s = .ok p t)
    (hCompile' : Action.compile s' = .ok p' t') (hOrder : p.order ≤ p'.order)
    {G : SquareMatrix p'.order} (hFeasible : p'.Feasible G value) :
    p.Feasible (leadingBlock G hOrder) value ∧
      p.metric.evalAt (entryAt (leadingBlock G hOrder)) value =
        p'.metric.evalAt (entryAt G) value := by
  obtain ⟨hMetric, hSize, hRows⟩ := eq_of_compile hCompile
  obtain ⟨hMetric', -, hRows'⟩ := eq_of_compile hCompile'
  have hLater := h.compiled_hold ((hRows' _ _).mp hFeasible.rows)
  have hSame : p.metric = p'.metric :=
    Option.some.inj ((h.metric hMetric).symm.trans hMetric')
  have hInside := gramBelow_compiled hs hRules
  rw [← hSize] at hInside
  refine ⟨⟨hFeasible.posSemidef.submatrix _, (hRows _ _).mpr fun entry hEntry => ?_⟩, ?_⟩
  · rw [holdsAt_leadingBlock_iff G hOrder value (hInside entry hEntry)]
    exact hLater entry hEntry
  · have hBelow := (hs.metric hMetric).gramBelow
    rw [← hSize] at hBelow
    rw [evalAt_leadingBlock G hOrder value hBelow, hSame]

end Restriction

/-- A session that is extended never gets a larger worst case: a feasible point of the later program
restricts to one of the earlier program, with the same metric. -/
theorem worstCase_le_of_run (par : Parameters ℝ) (calls more : List (Call ℝ))
    (hRules : ((new par).run calls).RulesInside) {p p' : Program ℝ} {t t' : Session ℝ}
    (hCompile : Action.compile ((new par).run calls) = .ok p t)
    (hCompile' : Action.compile ((new par).run (calls ++ more)) = .ok p' t') :
    ∃ hOrder : p.order ≤ p'.order,
      (∀ (G : SquareMatrix p'.order) (value : ValueIndex → ℝ), p'.Feasible G value →
        p.Feasible (leadingBlock G hOrder) value ∧
          p.metric.evalAt (entryAt (leadingBlock G hOrder)) value =
            p'.metric.evalAt (entryAt G) value) ∧
      p'.worstCase ≤ p.worstCase := by
  rw [run_append] at hCompile'
  have hWell : ((new par).run calls).WellFormed := (wellFormed_new par).run calls
  have hGrow := precedes_run ((new par).run calls) more
  have hOrder : p.order ≤ p'.order := by
    rw [(eq_of_compile hCompile).2.1, (eq_of_compile hCompile').2.1]
    exact hGrow.size_le
  have hRestrict : ∀ (G : SquareMatrix p'.order) (value : ValueIndex → ℝ), p'.Feasible G value →
      p.Feasible (leadingBlock G hOrder) value ∧
        p.metric.evalAt (entryAt (leadingBlock G hOrder)) value =
          p'.metric.evalAt (entryAt G) value := fun G value hFeasible =>
    hGrow.feasible_leadingBlock hWell hRules hCompile hCompile' hOrder hFeasible
  refine ⟨hOrder, hRestrict, ?_⟩
  refine iSup_le fun G => iSup_le fun value => iSup_le fun hFeasible => ?_
  obtain ⟨hBefore, hMetric⟩ := hRestrict G value hFeasible
  rw [← hMetric]
  exact le_iSup_of_le _ (le_iSup_of_le value (le_iSup_of_le hBefore le_rfl))

section Example

/-- A convex function, a point of norm at most one, and its norm as the metric. -/
noncomputable def boundedCalls : List (Call ℝ) :=
  [.initialPoint, .declareFunction .convex,
    .initialCondition ⟨⟨[], [(⟨⟨0⟩, ⟨0⟩⟩, 1)], -1⟩, .lessEq⟩,
    .setMetric ⟨[], [(⟨⟨0⟩, ⟨0⟩⟩, 1)], 0⟩]

/-- One more point, at which the function vanishes. -/
noncomputable def pointCalls : List (Call ℝ) :=
  [.initialPoint, .addPoint ⟨0⟩ (.ofBasis ⟨1⟩) 0 0]

noncomputable def bounded : Session ℝ where
  parameters := { onePoint with maxBasis := 2 }
  basis := ⟨2, [.initialPoint]⟩
  valueCount := 0
  functions := [.leaf .convex []]
  declared := ⟨[⟨⟨⟨[], [(⟨⟨0⟩, ⟨0⟩⟩, 1)], -1⟩, .lessEq⟩, .initialCondition⟩]⟩
  metric := some ⟨[], [(⟨⟨0⟩, ⟨0⟩⟩, 1)], 0⟩
  status := .unsolved
  failure := none
  poisoned := false

theorem run_pointCalls : bounded.run pointCalls =
    { bounded with
      basis := ⟨2, [.initialPoint, .initialPoint]⟩
      functions := [.leaf .convex [⟨.ofBasis ⟨1⟩, 0, 0⟩]] } := rfl

theorem worstCase_le_of_run_point : bounded.RulesInside ∧ ∃ (p p' : Program ℝ) (t t' : Session ℝ),
    Action.compile ((new bounded.parameters).run boundedCalls) = .ok p t ∧
    Action.compile ((new bounded.parameters).run (boundedCalls ++ pointCalls)) = .ok p' t' ∧
    p.order = 1 ∧ p'.order = 2 ∧ p'.worstCase ≤ p.worstCase := by
  have hRules : bounded.RulesInside := by
    intro f name singleValued rule triples hLeaf
    cases f with
    | zero => cases hLeaf
    | succ f => cases hLeaf
  have hCompile : Action.compile ((new bounded.parameters).run boundedCalls) =
      .ok ⟨bounded.declared, ⟨[], [(⟨⟨0⟩, ⟨0⟩⟩, 1)], 0⟩, 1⟩ bounded :=
    compile_eq_ok_iff.mpr ⟨rfl, rfl, _, _, rfl, rfl, rfl⟩
  have hCompile' : Action.compile ((new bounded.parameters).run (boundedCalls ++ pointCalls)) =
      .ok ⟨bounded.declared, ⟨[], [(⟨⟨0⟩, ⟨0⟩⟩, 1)], 0⟩, 2⟩ (bounded.run pointCalls) := by
    rw [run_append]
    change Action.compile (bounded.run pointCalls) = _
    rw [run_pointCalls]
    exact compile_eq_ok_iff.mpr ⟨rfl, rfl, _, _, rfl, rfl, rfl⟩
  obtain ⟨-, -, hWorst⟩ :=
    worstCase_le_of_run bounded.parameters boundedCalls pointCalls hRules hCompile hCompile'
  exact ⟨hRules, _, _, _, _, hCompile, hCompile', rfl, rfl, hWorst⟩

end Example

end Session

end PerformanceEstimation
