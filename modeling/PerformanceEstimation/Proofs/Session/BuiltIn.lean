import Mathlib
import PerformanceEstimation.Proofs.Classes.Inequalities
import PerformanceEstimation.Proofs.Session.Compilation
import PerformanceEstimation.Proofs.Store.Conflicts

/-!
# Sessions of built-in classes

The built-in classes generate inequalities only, and an inequality conflicts with nothing. A session
all of whose functions are of such classes is therefore never spoiled by being compiled: all that
can be wrong is a constant constraint which never holds (`compile_of_live`). This takes no law of
the coefficients, and holds with values that are no numbers as well.
-/

set_option autoImplicit false

namespace PerformanceEstimation

open Scalar

variable {α : Type} [Scalar α]

namespace Store

theorem conflict?_of_lessEq (s : Store α) {c : Constraint α} (h : c.sense = .lessEq) :
    s.conflict? c = none :=
  conflict?_eq_none_iff.mpr fun hActive => by simp [Constraint.isActive, h] at hActive

theorem pushAll_of_lessEq (s : Store α) {entries : List (StoredConstraint α)}
    (h : ∀ entry ∈ entries, entry.constraint.sense = .lessEq) :
    s.pushAll entries = .ok ⟨s.entries ++ entries⟩ := by
  induction entries generalizing s with
  | nil => simp [pushAll, pure, Except.pure]
  | cons entry entries ih =>
    obtain ⟨hHead, hRest⟩ := List.forall_mem_cons.mp h
    have hPush : s.push entry.constraint entry.origin =
        .ok (⟨s.size⟩, ⟨s.entries ++ [entry]⟩) :=
      push_eq_ok_iff.mpr ⟨s.conflict?_of_lessEq hHead, rfl, rfl⟩
    calc s.pushAll (entry :: entries)
      _ = pushAll ⟨s.entries ++ [entry]⟩ entries := by
          rw [pushAll, List.foldlM_cons, hPush]
          rfl
      _ = .ok ⟨s.entries ++ entry :: entries⟩ := by
          rw [ih ⟨s.entries ++ [entry]⟩ hRest, List.append_assoc, List.singleton_append]

theorem isSome_triviallyViolated?_iff {s : Store α} : s.triviallyViolated?.isSome = true ↔
    ∃ entry ∈ s.entries, entry.constraint.isTriviallyViolated = true := by
  rw [Option.isSome_iff_ne_none, ne_eq, triviallyViolated?_eq_none_iff]
  push Not
  simp

end Store

namespace Session

/-- No function of the session has a class that is given by a rule. -/
def BuiltIn (s : Session α) : Prop :=
  ∀ (f : ℕ) (cls : FunctionClass α) (triples : List (Triple α)),
    s.functions[f]? = some (.leaf cls triples) → cls.isBuiltIn = true

/-- Some constraint, declared or generated, is a constant that never satisfies it. -/
def Impossible (s : Session α) : Prop :=
  ∃ entry ∈ s.declared.entries ++ s.interpolations,
    entry.constraint.lhs.isConstant = true ∧
      0 < entry.constraint.violation entry.constraint.lhs.constant

variable {s : Session α}

theorem BuiltIn.sense_eq (h : s.BuiltIn) {entry : StoredConstraint α}
    (hEntry : entry ∈ s.interpolations) : entry.constraint.sense = .lessEq := by
  obtain ⟨f, cls, triples, i, hLeaf, hi, rfl⟩ := mem_interpolations_iff.mp hEntry
  exact FunctionClass.sense_of_mem_interpolation (h f cls triples hLeaf) hi

theorem BuiltIn.compiledStore_eq (h : s.BuiltIn) :
    s.compiledStore = .ok ⟨s.declared.entries ++ s.interpolations⟩ :=
  s.declared.pushAll_of_lessEq fun _ hEntry => h.sense_eq hEntry

theorem impossible_iff : s.Impossible ↔
    (⟨s.declared.entries ++ s.interpolations⟩ : Store α).triviallyViolated?.isSome = true := by
  simp only [Impossible, Store.isSome_triviallyViolated?_iff, Constraint.isTriviallyViolated,
    Bool.and_eq_true, decide_eq_true_eq]

/-- How a live session is compiled. Without a metric that is an error which poisons it. With one,
and with built-in classes only, it never is: the outcome is the program of the declared and the
generated constraints, and the same program if the session is compiled again, unless some constant
constraint never holds; the program is then infeasible. The session is unchanged in both cases. -/
theorem compile_of_live (hLive : s.poisoned = false) :
    (s.metric = none →
      Action.compile s = .error (.construction .missingMetric) { s with poisoned := true }) ∧
    ∀ metric, s.metric = some metric → s.BuiltIn →
      (s.Impossible ∧ Action.compile s = .error (.solve .infeasible) s) ∨
      (¬ s.Impossible ∧ ∃ program : Program α, Action.compile s = .ok program s ∧
        program.metric = metric ∧ program.order = s.basis.size ∧
        program.store.entries = s.declared.entries ++ s.interpolations ∧
        (do return (← Action.compile, ← Action.compile)) s = .ok (program, program) s) := by
  constructor
  · intro hMetric
    rw [compile_eq, if_neg (by simp [hLive])]
    simp only [hMetric]
  · intro metric hMetric hBuiltIn
    have hStore := hBuiltIn.compiledStore_eq
    by_cases hImpossible : s.Impossible
    · left
      exact ⟨hImpossible, compile_eq_solveError_iff.mpr
        ⟨hLive, rfl, _, metric, hStore, hMetric, if_pos (impossible_iff.mp hImpossible)⟩⟩
    · right
      have hCompile := compile_eq_ok_iff.mpr ⟨hLive, rfl, _, metric, hStore, hMetric,
        if_neg fun h => hImpossible (impossible_iff.mpr h)⟩
      refine ⟨hImpossible, _, hCompile, rfl, rfl, rfl, ?_⟩
      simp only [Bind.bind, EStateM.bind, hCompile]
      rfl

section Example

/-- A convex function with the values one and zero at the origin. -/
noncomputable def clashingCalls : List (Call ℝ) :=
  [.declareFunction .convex, .addPoint ⟨0⟩ 0 0 (.const 1), .addPoint ⟨0⟩ 0 0 (.const 0),
    .setMetric 0]

noncomputable def clashing : Session ℝ :=
  (new onePoint).run clashingCalls

theorem functions_clashing :
    clashing.functions = [.leaf .convex [⟨0, 0, .const 1⟩, ⟨0, 0, .const 0⟩]] :=
  rfl

theorem builtIn_clashing : clashing.BuiltIn := by
  intro f cls triples hLeaf
  rw [functions_clashing] at hLeaf
  cases f with
  | zero =>
    cases hLeaf
    rfl
  | succ f => cases hLeaf

theorem impossible_clashing : clashing.Impossible := by
  -- the triple with the lower value is above the affine minorant at the other one
  let rule : Constraint ℝ := FunctionClass.convexRule ⟨0, 0, .const 0⟩ ⟨0, 0, .const 1⟩
  have hConstant : rule.lhs.isConstant = true := rfl
  have hViolation : rule.violation rule.lhs.constant = 1 := by
    simp [rule, Constraint.violation, FunctionClass.convexRule, FunctionClass.convexityGap,
      Expression.le, Expression.const]
  have hGenerated : (⟨1, 0, rule⟩ : Interpolation ℝ) ∈ FunctionClass.convex.interpolation
      [⟨0, 0, .const 1⟩, ⟨0, 0, .const 0⟩] := by
    refine FunctionClass.mem_interpolation_iff.mpr ⟨?_, .inl ⟨?_, _, _, rfl, rfl, rfl⟩⟩
    · simp [Constraint.isTriviallySatisfied, hViolation]
    · simp [FunctionClass.Relates, FunctionClass.isOperator]
  refine ⟨⟨rule, .interpolation ⟨0⟩ 1 0⟩, List.mem_append_right _ ?_, hConstant, ?_⟩
  · exact mem_interpolations_iff.mpr ⟨0, _, _, _, rfl, hGenerated, rfl⟩
  · simp [hViolation]

/-- Values that clash make a session infeasible, but do not spoil it. One without a metric is
spoiled, and one with two equal triples of a convex function is compiled. -/
theorem compile_of_live_clashing :
    (clashing.BuiltIn ∧ clashing.Impossible ∧
      Action.compile clashing = .error (.solve .infeasible) clashing) ∧
    Action.compile (new onePoint) =
      .error (.construction .missingMetric) { new onePoint with poisoned := true } ∧
    ∃ program, Action.compile coinciding = .ok program coinciding ∧
      (do return (← Action.compile, ← Action.compile)) coinciding =
        .ok (program, program) coinciding := by
  refine ⟨⟨builtIn_clashing, impossible_clashing, ?_⟩, (compile_of_live rfl).1 rfl, ?_⟩
  · rcases (compile_of_live (s := clashing) rfl).2 0 rfl builtIn_clashing with
      ⟨-, hCompile⟩ | ⟨hPossible, -⟩
    · exact hCompile
    · exact (hPossible impossible_clashing).elim
  · have hBuiltIn : coinciding.BuiltIn := by
      intro f cls triples hLeaf
      cases f with
      | zero =>
        cases hLeaf
        rfl
      | succ f => cases hLeaf
    rcases (compile_of_live (s := coinciding) rfl).2 _ rfl hBuiltIn with
      ⟨-, hCompile⟩ | ⟨-, program, hCompile, -, -, -, hAgain⟩
    · cases hCompile.symm.trans compile_coinciding
    · exact ⟨program, hCompile, hAgain⟩

end Example

end Session

end PerformanceEstimation
