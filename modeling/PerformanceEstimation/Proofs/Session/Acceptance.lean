import Mathlib
import PerformanceEstimation.Proofs.Certificate.Soundness
import PerformanceEstimation.Proofs.Program.Assembly
import PerformanceEstimation.Proofs.Session.Extension
import PerformanceEstimation.Proofs.Session.Identifiers

/-!
# Acceptance of an answer

An answer of the solver has four defects: how far the spectra of its two matrices reach below zero,
the largest violation of a row, and the largest product of an inequality with its multiplier. The
first defect above the tolerance refuses the answer, and names the first row which attains it. An
accepted solution reports the defects above the warning threshold (`solve?_judged`).
-/

set_option autoImplicit false

namespace PerformanceEstimation

section FirstMax

variable {β : Type} {score : β → ℝ} {bs : List β} {b : β}

def FirstMax (score : β → ℝ) (bs : List β) (b : β) : Prop :=
  ∃ before after, bs = before ++ b :: after ∧
    (∀ c ∈ before, score c < score b) ∧ ∀ c ∈ after, score c ≤ score b

theorem FirstMax.concat_of_le (h : FirstMax score bs b) {c : β} (hc : score c ≤ score b) :
    FirstMax score (bs ++ [c]) b := by
  obtain ⟨before, after, rfl, hBefore, hAfter⟩ := h
  refine ⟨before, after ++ [c], by simp, hBefore, ?_⟩
  exact List.forall_mem_append.mpr ⟨hAfter, List.forall_mem_singleton.mpr hc⟩

theorem firstMax_concat {c : β} (h : ∀ b ∈ bs, score b < score c) :
    FirstMax score (bs ++ [c]) c :=
  ⟨bs, [], rfl, h, by simp⟩

theorem FirstMax.mem (h : FirstMax score bs b) : b ∈ bs := by
  obtain ⟨before, after, rfl, -, -⟩ := h
  exact List.mem_append_right _ List.mem_cons_self

theorem FirstMax.le (h : FirstMax score bs b) : ∀ c ∈ bs, score c ≤ score b := by
  obtain ⟨before, after, rfl, hBefore, hAfter⟩ := h
  refine List.forall_mem_append.mpr ⟨fun c hc => (hBefore c hc).le, ?_⟩
  exact List.forall_mem_cons.mpr ⟨le_rfl, hAfter⟩

theorem FirstMax.eq_of_le_head {c : β} (h : FirstMax score (b :: bs) c)
    (hle : score c ≤ score b) : c = b := by
  obtain ⟨before, after, hSplit, hBefore, -⟩ := h
  cases before with
  | nil => exact (List.head_eq_of_cons_eq hSplit).symm
  | cons first before =>
    obtain rfl : b = first := List.head_eq_of_cons_eq hSplit
    exact absurd (hBefore b List.mem_cons_self) (not_lt.mpr hle)

end FirstMax

def ToleranceCheck.inOrder : List ToleranceCheck :=
  [.primalPsd, .dualPsd, .feasibility, .complementarySlackness]

def Program.inequalities (p : Program ℝ) : List (ConstraintId × StoredConstraint ℝ) :=
  p.rows.filter fun row => row.2.constraint.sense = .lessEq

/-- How far the spectrum of a packed matrix reaches below zero. -/
noncomputable def negativeSpectrum (d : ℕ) (packed : List ℝ) : ℝ :=
  max 0 (-sInf (spectrum ℝ (ofPacked d packed)))

theorem negativePart_eq {minEigenvalue : List ℝ → Option ℝ}
    (hExact : ExactSmallestEigenvalue minEigenvalue) {d : ℕ} {packed : List ℝ}
    (hLength : packed.length = triangular d) :
    Solution.negativePart (minEigenvalue packed) = negativeSpectrum d packed := by
  obtain ⟨hNone, hSome⟩ := hExact d packed hLength
  unfold Solution.negativePart negativeSpectrum
  cases hMin : minEigenvalue packed with
  | none =>
    obtain rfl := hNone.mp hMin
    rw [spectrum.of_subsingleton, Real.sInf_empty, neg_zero, max_self, Option.elim_none, zero_real]
  | some e =>
    rw [(hSome e hMin).csInf_eq, Option.elim_some, max_real, zero_real, max_comm]

namespace Solution

section Worst

variable {β : Type} (id : β → ConstraintId) (score : β → ℝ)

theorem worst_concat (amounts : List (ConstraintId × ℝ)) (amount : ConstraintId × ℝ) :
    worst (amounts ++ [amount]) =
      if (worst amounts).1 < amount.2 then (amount.2, some amount.1) else worst amounts := by
  rw [worst, List.foldl_append]
  rfl

theorem worst_spec (bs : List β) :
    let w := worst (bs.map fun b => (id b, score b))
    0 ≤ w.1 ∧ (∀ b ∈ bs, score b ≤ w.1) ∧
      (w = (0, none) ∨ ∃ b, FirstMax score bs b ∧ w = (score b, some (id b))) := by
  -- the loop holds the first largest amount so far, if there is a positive one
  induction bs using List.reverseRecOn with
  | nil => exact ⟨zero_real.ge, by simp, .inl (congrArg (·, none) zero_real)⟩
  | append_singleton bs c ih =>
    obtain ⟨hNonneg, hLe, hFirst⟩ := ih
    rw [List.map_append, List.map_singleton, worst_concat]
    split
    · rename_i hLess
      refine ⟨hNonneg.trans hLess.le, ?_, .inr ⟨c, ?_, rfl⟩⟩
      · refine List.forall_mem_append.mpr ⟨fun b hb => (hLe b hb).trans hLess.le, ?_⟩
        exact List.forall_mem_singleton.mpr le_rfl
      · exact firstMax_concat fun b hb => (hLe b hb).trans_lt hLess
    · rename_i hLess
      have hc : score c ≤ (worst (bs.map fun b => (id b, score b))).1 := not_lt.mp hLess
      refine ⟨hNonneg, ?_, hFirst.imp_right ?_⟩
      · exact List.forall_mem_append.mpr ⟨hLe, List.forall_mem_singleton.mpr hc⟩
      · rintro ⟨b, hb, hw⟩
        exact ⟨b, hb.concat_of_le (hc.trans (congrArg Prod.fst hw).le), hw⟩

theorem worst_fst {bs : List β} (h : ∀ b ∈ bs, 0 ≤ score b) :
    (worst (bs.map fun b => (id b, score b))).1 = ⨆ b : {b // b ∈ bs}, score b := by
  obtain ⟨hNonneg, hLe, hFirst⟩ := worst_spec id score bs
  apply le_antisymm
  · rcases hFirst with hw | ⟨b, hb, hw⟩
    · rw [hw]
      exact Real.iSup_nonneg fun b => h b b.2
    · rw [hw]
      refine le_ciSup (f := fun b : {b // b ∈ bs} => score b) ⟨score b, ?_⟩ ⟨b, hb.mem⟩
      rintro _ ⟨c, rfl⟩
      exact hb.le c c.2
  · exact Real.iSup_le (fun b => hLe b b.2) hNonneg

theorem worst_snd {bs : List β} (h : 0 < (worst (bs.map fun b => (id b, score b))).1) :
    ∃ b, FirstMax score bs b ∧ (worst (bs.map fun b => (id b, score b))).2 = some (id b) := by
  obtain ⟨-, -, hw | ⟨b, hb, hw⟩⟩ := worst_spec id score bs
  · rw [hw] at h
    exact (lt_irrefl _ h).elim
  · exact ⟨b, hb, congrArg Prod.snd hw⟩

end Worst

variable (s : Solution ℝ) (p : Program ℝ)

noncomputable def violationAt (row : ConstraintId × StoredConstraint ℝ) : ℝ :=
  row.2.constraint.violation (s.eval row.2.constraint.lhs)

noncomputable def slacknessAt (row : ConstraintId × StoredConstraint ℝ) : ℝ :=
  |s.multipliers.getD row.1.pos 0 * s.eval row.2.constraint.lhs|

noncomputable def amount : ToleranceCheck → ℝ
  | .primalPsd => negativeSpectrum p.order s.gram
  | .dualPsd => negativeSpectrum p.order s.psd
  | .feasibility => ⨆ row : {row // row ∈ p.rows}, s.violationAt row
  | .complementarySlackness => ⨆ row : {row // row ∈ p.inequalities}, s.slacknessAt row

/-- A row is to blame for the last two defects, nobody for those of the matrices. -/
def Blames : ToleranceCheck → Option ConstraintId → Prop
  | .primalPsd, id | .dualPsd, id => id = none
  | .feasibility, id => ∃ row, FirstMax s.violationAt p.rows row ∧ id = some row.1
  | .complementarySlackness, id =>
    ∃ row, FirstMax s.slacknessAt p.inequalities row ∧ id = some row.1

variable {s p}

theorem violationAt_nonneg (row : ConstraintId × StoredConstraint ℝ) : 0 ≤ s.violationAt row := by
  unfold violationAt Constraint.violation
  cases row.2.constraint.sense with
  | lessEq =>
    rw [max_real, zero_real]
    exact le_max_right _ _
  | equal => exact abs_nonneg _

theorem slacknesses_eq :
    s.slacknesses p = p.inequalities.map fun row => (row.1, s.slacknessAt row) := by
  simp only [slacknesses, zero_real]
  rfl

theorem worst_violations : (worst (s.violations p)).1 = s.amount p .feasibility :=
  worst_fst _ s.violationAt fun row _ => violationAt_nonneg row

theorem worst_slacknesses : (worst (s.slacknesses p)).1 = s.amount p .complementarySlackness := by
  rw [slacknesses_eq]
  exact worst_fst _ s.slacknessAt fun row _ => abs_nonneg _

theorem violationAt_le_amount {row : ConstraintId × StoredConstraint ℝ} (h : row ∈ p.rows) :
    s.violationAt row ≤ s.amount p .feasibility := by
  rw [← worst_violations]
  exact (worst_spec _ s.violationAt p.rows).2.1 row h

/-- The defects of a solution are those above, and an amount that is positive has its culprit. -/
theorem exists_defects {minEigenvalue : List ℝ → Option ℝ}
    (hExact : ExactSmallestEigenvalue minEigenvalue) (hGram : s.gram.length = triangular p.order)
    (hPsd : s.psd.length = triangular p.order) :
    ∃ culprit : ToleranceCheck → Option ConstraintId,
      s.defects minEigenvalue p = ToleranceCheck.inOrder.map
        (fun check => ⟨check, s.amount p check, culprit check⟩) ∧
      ∀ check, 0 < s.amount p check → s.Blames p check (culprit check) := by
  refine ⟨fun
    | .primalPsd | .dualPsd => none
    | .feasibility => (worst (s.violations p)).2
    | .complementarySlackness => (worst (s.slacknesses p)).2, ?_, ?_⟩
  · rw [defects, negativePart_eq hExact hGram, negativePart_eq hExact hPsd, worst_violations,
      worst_slacknesses]
    rfl
  · intro check hPos
    cases check with
    | primalPsd | dualPsd => exact rfl
    | feasibility => exact worst_snd _ s.violationAt (worst_violations ▸ hPos)
    | complementarySlackness =>
      rw [← worst_slacknesses, slacknesses_eq] at hPos
      rw [slacknesses_eq]
      exact worst_snd _ s.slacknessAt hPos

/-- What a solve makes of a solution. The first defect above the tolerance refuses it, and an
accepted one reports the defects above the warning threshold. -/
structure Judged (s : Solution ℝ) (p : Program ℝ) (q : Parameters ℝ)
    (outcome : Except (SolveError ℝ) (Solution ℝ)) : Prop where
  accepted_iff : (∃ solution, outcome = .ok solution) ↔ ∀ check, s.amount p check ≤ q.failAbove
  refused (check : ToleranceCheck)
    (h : ToleranceCheck.inOrder.find? (fun check => q.failAbove < s.amount p check) = some check) :
    ∃ id, outcome = .error (.tolerance ⟨check, s.amount p check, id⟩) ∧ s.Blames p check id
  accepted (solution : Solution ℝ) (h : outcome = .ok solution) :
    solution = { s with warnings := solution.warnings, certificate := solution.certificate } ∧
      solution.certificate =
        (if q.certificate then some (Certificate.extract p s.multipliers s.psd) else none) ∧
      (solution.warnings.map fun d => (d.check, d.amount)) =
        ((ToleranceCheck.inOrder.filter fun check =>
          max q.warnAbove q.accuracy < s.amount p check).map fun check =>
            (check, s.amount p check)) ∧
      ∀ d ∈ solution.warnings, s.Blames p d.check d.constraint

theorem mapM_judge (q : Parameters ℝ) (ds : List (Defect ℝ)) :
    ds.mapM q.judge = match ds.find? (fun d => q.failAbove < d.amount) with
      | some d => .error (.tolerance d)
      | none =>
        .ok (ds.map fun d => if max q.warnAbove q.accuracy < d.amount then [d] else []) := by
  induction ds with
  | nil => rfl
  | cons d ds ih =>
    rw [List.mapM_cons, ih, List.find?_cons]
    by_cases hFail : q.failAbove < d.amount
    · have hJudge : q.judge d = .error (.tolerance d) := if_pos hFail
      rw [hJudge, decide_eq_true hFail]
      rfl
    · have hJudge : q.judge d =
          .ok (if max q.warnAbove q.accuracy < d.amount then [d] else []) := by
        rw [Parameters.judge, if_neg hFail, max_real, apply_ite Except.ok]
      rw [hJudge, decide_eq_false hFail]
      cases ds.find? fun d => q.failAbove < d.amount <;> rfl

/-- Only the first defect above the tolerance counts; without one, the others become warnings. -/
theorem accept_eq (b : Backend ℝ) (q : Parameters ℝ) (p : Program ℝ) (s : Solution ℝ) :
    p.accept b q s =
      match (s.defects b.minEigenvalue p).find? (fun d => q.failAbove < d.amount) with
      | some d => .error (.tolerance d)
      | none => .ok { s with
          warnings := (s.defects b.minEigenvalue p).filter fun d =>
            max q.warnAbove q.accuracy < d.amount
          certificate :=
            if q.certificate then some (Certificate.extract p s.multipliers s.psd) else none } := by
  have hFlatten (ds : List (Defect ℝ)) :
      (ds.map fun d => if max q.warnAbove q.accuracy < d.amount then [d] else []).flatten =
        ds.filter fun d => max q.warnAbove q.accuracy < d.amount := by
    induction ds with
    | nil => rfl
    | cons d ds ih =>
      rw [List.map_cons, List.flatten_cons, ih, List.filter_cons]
      by_cases hWarn : max q.warnAbove q.accuracy < d.amount <;> simp [hWarn]
  unfold Program.accept
  rw [mapM_judge, ← hFlatten]
  cases (s.defects b.minEigenvalue p).find? fun d => q.failAbove < d.amount <;> rfl

theorem mem_inOrder (check : ToleranceCheck) : check ∈ ToleranceCheck.inOrder := by
  cases check <;> decide

theorem judged_accept {b : Backend ℝ} (hExact : ExactSmallestEigenvalue b.minEigenvalue)
    {q : Parameters ℝ} (hFail : 0 ≤ q.failAbove) (hWarn : 0 ≤ q.warnAbove)
    (hGram : s.gram.length = triangular p.order) (hPsd : s.psd.length = triangular p.order) :
    s.Judged p q (p.accept b q s) := by
  obtain ⟨culprit, hDefects, hCulprit⟩ := exists_defects hExact hGram hPsd
  let defect (check : ToleranceCheck) : Defect ℝ := ⟨check, s.amount p check, culprit check⟩
  have hFind : (s.defects b.minEigenvalue p).find? (fun d => q.failAbove < d.amount) =
      (ToleranceCheck.inOrder.find? fun check => q.failAbove < s.amount p check).map defect := by
    rw [hDefects, List.find?_map]
    rfl
  rw [accept_eq, hFind]
  cases hFirst : ToleranceCheck.inOrder.find? fun check => q.failAbove < s.amount p check with
  | none =>
    have hSmall (check : ToleranceCheck) : s.amount p check ≤ q.failAbove := by
      have hNot := List.find?_eq_none.mp hFirst check (mem_inOrder check)
      exact not_lt.mp fun hLarge => hNot (decide_eq_true hLarge)
    constructor
    · exact ⟨fun _ => hSmall, fun _ => ⟨_, rfl⟩⟩
    · intro check hCheck
      rw [hFirst] at hCheck
      cases hCheck
    · rintro solution ⟨⟩
      refine ⟨rfl, rfl, ?_, ?_⟩
      · rw [hDefects, List.filter_map, List.map_map]
        rfl
      · intro d hd
        obtain ⟨hMem, hLarge⟩ := List.mem_filter.mp hd
        rw [hDefects] at hMem
        obtain ⟨check, -, rfl⟩ := List.mem_map.mp hMem
        -- what is reported is positive, so a row attains it
        have hAbove : max q.warnAbove q.accuracy < s.amount p check := of_decide_eq_true hLarge
        exact hCulprit check ((le_max_of_le_left hWarn).trans_lt hAbove)
  | some check =>
    have hFound := List.find?_some hFirst
    have hLarge : q.failAbove < s.amount p check := of_decide_eq_true hFound
    constructor
    · constructor
      · rintro ⟨solution, ⟨⟩⟩
      · intro hAll
        exact absurd hLarge (not_lt.mpr (hAll check))
    · intro other hOther
      rw [hFirst] at hOther
      cases hOther
      exact ⟨culprit check, rfl, hCulprit check (hFail.trans_lt hLarge)⟩
    · rintro solution ⟨⟩

end Solution

namespace Program

variable {p : Program ℝ} {x y : List ℝ}

theorem exists_read? (hx : x.length = p.width) (hy : y.length = p.rows.length + p.packed) :
    ∃ s, p.read? x y = some s ∧ p.Reads x s ∧ s.worstCase = s.eval p.metric ∧
      s.gram.length = triangular p.order ∧ s.psd.length = triangular p.order := by
  obtain ⟨d, hd, hAttributes⟩ := exists_dualsOf? hy.ge
  exact ⟨_, read?_eq hx hd, ⟨gramOf?_eq hx, congrArg _ (valuesOf?_eq hx)⟩, rfl,
    length_gram_solutionAt hx d, hAttributes.psd⟩

end Program

namespace Session

/-- A program of a session judges an answer of the right lengths by its four defects. The metric has
to be in the form that the operations build, for its value to be read from its columns. -/
theorem solve?_judged (par : Parameters ℝ) (calls : List (Call ℝ)) {p : Program ℝ}
    {t : Session ℝ} (hCompile : Action.compile ((new par).run calls) = .ok p t)
    (hMetric : p.metric.Canonical) {b : Backend ℝ}
    (hExact : ExactSmallestEigenvalue b.minEigenvalue) {q : Parameters ℝ}
    (hFail : 0 ≤ q.failAbove) (hWarn : 0 ≤ q.warnAbove) {x y : List ℝ}
    (hx : x.length = p.width) (hy : y.length = p.rows.length + p.packed)
    (hRay : p.rayCheck? b q = some (.ok ())) (hAnswer : p.answer? b q = some (.ok (x, y))) :
    ∃ s outcome, p.read? x y = some s ∧ p.solve? b q = some outcome ∧
      s.worstCase = p.metric.constant + p.metricLinear x ∧ s.Judged p q outcome := by
  obtain ⟨s, hRead, hReads, hWorst, hGram, hPsd⟩ := Program.exists_read? hx hy
  have hWell : ((new par).run calls).WellFormed := (wellFormed_new par).run calls
  obtain ⟨hStated, hOrder, -⟩ := eq_of_compile hCompile
  have hBelow : p.metric.GramBelow p.order := hOrder ▸ (hWell.metric hStated).gramBelow
  refine ⟨s, _, hRead, Program.solve?_of_read hRay hAnswer hRead, ?_,
    Solution.judged_accept hExact hFail hWarn hGram hPsd⟩
  rw [hWorst, ← hReads.metricLinear_eq hx hMetric hBelow, add_comm]

section Example

attribute [local instance] atLeastTwo_two

noncomputable def answering (x y : List ℝ) : Backend ℝ where
  minEigenvalue := smallestEigenvalue
  squareRoot packed := packed
  solve _ _ := .ok (x, y)

theorem read_twoValuesProgram : ∃ s, twoValuesProgram.read? [3, 1] [-1, 2, 1] = some s ∧
    s.valueOf ⟨0⟩ = 3 ∧ s.valueOf ⟨1⟩ = 1 :=
  ⟨_, rfl, rfl, rfl⟩

theorem negativeSpectrum_empty (packed : List ℝ) : negativeSpectrum 0 packed = 0 := by
  rw [negativeSpectrum, spectrum.of_subsingleton, Real.sInf_empty, neg_zero, max_self]

/-- The first value is too large for the equality, which comes first, and for its bound. -/
theorem solve?_judged_twoValues :
    (∃ t, Action.compile ((new onePoint).run (statingCalls ++ laterCalls)) =
      .ok twoValuesProgram t) ∧ twoValuesProgram.metric.Canonical ∧
    ExactSmallestEigenvalue (answering [3, 1] [-1, 2, 1]).minEigenvalue ∧
    0 ≤ onePoint.failAbove ∧ 0 ≤ onePoint.warnAbove ∧
    ∃ amount, twoValuesProgram.solve? (answering [3, 1] [-1, 2, 1]) onePoint =
      some (.error (.tolerance ⟨.feasibility, amount, some ⟨0⟩⟩)) := by
  have hCompile : Action.compile ((new onePoint).run (statingCalls ++ laterCalls)) =
      .ok twoValuesProgram twoValues := run_stating_later ▸ compile_twoValues
  have hMetric : twoValuesProgram.metric.Canonical := by
    constructor <;> simp [twoValuesProgram, Terms.canonical_cons_iff, Terms.canonical_nil,
      ValueIndex.lt_iff]
  have hExact : ExactSmallestEigenvalue (answering [3, 1] [-1, 2, 1]).minEigenvalue :=
    smallestEigenvalue_exact
  have hRay := rayCheck_twoValuesProgram (answering [3, 1] [-1, 2, 1])
  have hAnswer := answer_twoValuesProgram (b := answering [3, 1] [-1, 2, 1]) fun _ => rfl
  obtain ⟨s, outcome, hRead, hSolve, -, hJudged⟩ := solve?_judged onePoint _ hCompile hMetric
    hExact le_rfl le_rfl rfl rfl hRay hAnswer
  obtain ⟨s', hRead', hFirst, hSecond⟩ := read_twoValuesProgram
  cases hRead'.symm.trans hRead
  have hViolations : twoValuesProgram.rows.map s.violationAt = [2, 2, 0] := by
    simp [rows_twoValuesProgram, Solution.violationAt, firstIsOne, Constraint.violation,
      Solution.eval, Expression.evalAt, hFirst, hSecond]
    norm_num
  have hMost : ∀ row ∈ twoValuesProgram.rows, s.violationAt row ≤ 2 := by
    rw [← List.forall_mem_map (f := s.violationAt) (P := (· ≤ 2)), hViolations]
    simp
  have hHead : s.violationAt twoValuesProgram.rows[0] = 2 := List.head_eq_of_cons_eq hViolations
  have hPositive : 0 < s.amount twoValuesProgram .feasibility :=
    (hHead ▸ two_pos).trans_le (Solution.violationAt_le_amount (List.getElem_mem _))
  have hRefused : ToleranceCheck.inOrder.find?
      (fun check => onePoint.failAbove < s.amount twoValuesProgram check) = some .feasibility := by
    have hPrimal : s.amount twoValuesProgram .primalPsd = 0 := negativeSpectrum_empty _
    have hDual : s.amount twoValuesProgram .dualPsd = 0 := negativeSpectrum_empty _
    simp [ToleranceCheck.inOrder, hPrimal, hDual, hPositive, onePoint]
  obtain ⟨id, hOutcome, row, hWorst, rfl⟩ := hJudged.refused _ hRefused
  have hId : row = twoValuesProgram.rows[0] :=
    hWorst.eq_of_le_head ((hMost row hWorst.mem).trans hHead.ge)
  refine ⟨⟨_, hCompile⟩, hMetric, hExact, le_rfl, le_rfl, ?_⟩
  refine ⟨s.amount twoValuesProgram .feasibility, ?_⟩
  rw [hSolve, hOutcome, hId]
  rfl

end Example

end Session

end PerformanceEstimation
