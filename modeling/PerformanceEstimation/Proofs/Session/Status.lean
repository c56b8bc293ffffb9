import Mathlib
import PerformanceEstimation.Proofs.Session.History
import PerformanceEstimation.Proofs.Session.Poisoning

/-!
# The status of a session

The status says how the last solve ended, and the first failed solve is final. A session that can
still be used and has the status of a solved one is as it was when it was solved, so it compiles to
the program that was solved (`status_of_run`). The solver may do as it likes, and need not be the
same one in every call.
-/

set_option autoImplicit false

namespace PerformanceEstimation

open Session

variable {α : Type}

theorem Status.ofError_ne_solved (e : SolveError α) : Status.ofError e ≠ .solved := by
  cases e <;> simp [ofError]

namespace Standing

/-- The status tells whether a solve failed, and with which error. -/
def Sound (t : Standing α) : Prop :=
  match t.failure with
  | none => t.status = .unsolved ∨ t.status = .solved
  | some e => t.status = .ofError e

theorem touch_eq {t : Standing α} (h : t.status ≠ .solved) : t.touch = t := by
  rw [touch, if_neg h]

theorem Sound.status_eq {t : Standing α} (h : t.Sound) {e : SolveError α}
    (hFailure : t.failure = some e) : t.status = .ofError e := by
  rwa [Sound, hFailure] at h

theorem Sound.status_ne_solved {t : Standing α} (h : t.Sound) {e : SolveError α}
    (hFailure : t.failure = some e) : t.status ≠ .solved :=
  h.status_eq hFailure ▸ Status.ofError_ne_solved e

theorem Sound.poison {t : Standing α} (h : t.Sound) : t.poison.Sound :=
  h

theorem Sound.touch {t : Standing α} (h : t.Sound) : t.touch.Sound := by
  by_cases hSolved : t.status = .solved
  · cases hFailure : t.failure with
    | some e => exact (h.status_ne_solved hFailure hSolved).elim
    | none => simp [Sound, Standing.touch, hSolved, hFailure]
  · rwa [touch_eq hSolved]

theorem Sound.status_ne_solving {t : Standing α} (h : t.Sound) : t.status ≠ .solving := by
  unfold Sound at h
  split at h
  · rcases h with h | h <;> simp [h]
  · rename_i e _
    cases e <;> simp [h, Status.ofError]

theorem Sound.failure_eq_some_iff {t : Standing α} (h : t.Sound) : (∃ e, t.failure = some e) ↔
    t.status = .infeasible ∨ t.status = .unbounded ∨ t.status = .solverError := by
  unfold Sound at h
  split at h
  · rename_i hNone
    rcases h with h | h <;> simp [h, hNone]
  · rename_i e hSome
    cases e <;> simp [h, hSome, Status.ofError]

end Standing

variable [Scalar α]

namespace Session

section Failure

theorem sound_after {s : Session α} (hs : s.standing.Sound) (call : Call α) :
    (call.perform.after s).standing.Sound := by
  have hEnds := call.ends_perform s
  unfold Action.after
  generalize call.perform s = result at hEnds ⊢
  cases hEnds with
  | configured change => exact hs
  | refused => exact hs
  | poisoned hLive hError hStanding =>
    rcases hStanding with hStanding | hStanding
    · exact hStanding ▸ hs.poison
    · exact hStanding ▸ hs.touch.poison
  | declared hCall hLive hStanding => exact hStanding ▸ hs.touch
  | compiled => exact hs
  | unassembled => exact hs
  | closed => exact hs
  | solved hLive hOpen => simp [Standing.Sound, standing, hOpen]
  | failed => rfl

theorem sound_run {s : Session α} (hs : s.standing.Sound) (calls : List (Call α)) :
    (s.run calls).standing.Sound := by
  induction calls generalizing s with
  | nil => exact hs
  | cons call calls ih => exact ih (sound_after hs call)

theorem failure_after {s : Session α} (hs : s.standing.Sound) {e : SolveError α}
    (hFailure : s.failure = some e) (call : Call α) :
    (call.perform.after s).failure = some e ∧ (call.perform.after s).status = s.status := by
  have hTouch : s.standing.touch = s.standing :=
    Standing.touch_eq (hs.status_ne_solved hFailure)
  have hSame {s' : Session α} {t : Standing α} (hStanding : s'.standing = t)
      (ht : t.failure = s.failure) (ht' : t.status = s.status) :
      s'.failure = some e ∧ s'.status = s.status := by
    subst hStanding
    exact ⟨ht.trans hFailure, ht'⟩
  have hEnds := call.ends_perform s
  unfold Action.after
  generalize call.perform s = result at hEnds ⊢
  cases hEnds with
  | configured change => exact ⟨hFailure, rfl⟩
  | refused => exact ⟨hFailure, rfl⟩
  | poisoned hLive hError hStanding =>
    rw [hTouch, or_self] at hStanding
    exact hSame hStanding rfl rfl
  | declared hCall hLive hStanding =>
    rw [hTouch] at hStanding
    exact hSame hStanding rfl rfl
  | compiled => exact ⟨hFailure, rfl⟩
  | unassembled => exact ⟨hFailure, rfl⟩
  | closed => exact ⟨hFailure, rfl⟩
  | solved hLive hOpen => cases hOpen.symm.trans hFailure
  | failed b e' hLive hOpen => cases hOpen.symm.trans hFailure

theorem failure_run {s : Session α} (hs : s.standing.Sound) {e : SolveError α}
    (hFailure : s.failure = some e) (calls : List (Call α)) :
    (s.run calls).failure = some e ∧ (s.run calls).status = s.status := by
  induction calls generalizing s with
  | nil => exact ⟨hFailure, rfl⟩
  | cons call calls ih =>
    obtain ⟨hNext, hStatus⟩ := failure_after hs hFailure call
    obtain ⟨hLast, hStatus'⟩ := ih (sound_after hs call) hNext
    exact ⟨hLast, hStatus'.trans hStatus⟩

theorem solve_of_failure {s : Session α} (hLive : s.poisoned = false) {e : SolveError α}
    (hFailure : s.failure = some e) (b : Backend α) :
    Action.solve b s = .error (.solve e) s := by
  rw [solve_eq, if_neg (by simp [hLive])]
  simp only [hFailure]

end Failure

section Solution

/-- Two sessions with the same basis vectors, values, functions with their triples, declared
constraints and metric. -/
structure SameRecord (s t : Session α) : Prop where
  origins : s.basis.origins = t.basis.origins
  valueCount : s.valueCount = t.valueCount
  functions : s.functions = t.functions
  declared : s.declared = t.declared
  metric : s.metric = t.metric

namespace SameRecord

omit [Scalar α] in
theorem refl (s : Session α) : s.SameRecord s where
  origins := rfl
  valueCount := rfl
  functions := rfl
  declared := rfl
  metric := rfl

omit [Scalar α] in
theorem trans {s t u : Session α} (h : s.SameRecord t) (h' : t.SameRecord u) : s.SameRecord u where
  origins := h.origins.trans h'.origins
  valueCount := h.valueCount.trans h'.valueCount
  functions := h.functions.trans h'.functions
  declared := h.declared.trans h'.declared
  metric := h.metric.trans h'.metric

theorem compile {s t t' : Session α} (h : s.SameRecord t) (hLive : s.poisoned = false)
    {program : Program α} (hCompile : Action.compile t = .ok program t') :
    Action.compile s = .ok program s := by
  obtain ⟨-, -, store, metric, hStore, hMetric, hProgram⟩ := compile_eq_ok_iff.mp hCompile
  refine compile_eq_ok_iff.mpr ⟨hLive, rfl, store, metric, ?_, h.metric.trans hMetric, ?_⟩
  · rwa [compiledStore, interpolations, h.functions, h.declared]
  · rwa [Basis.size, h.origins]

end SameRecord

def Solves (s : Session α) (call : Call α) : Prop :=
  ∃ b solution s', call = .solve b ∧ Action.solve b s = .ok solution s'

theorem not_solves_of_ne {s : Session α} {call : Call α} (h : ∀ b, call ≠ .solve b) :
    ¬ s.Solves call := by
  rintro ⟨b, _, _, hCall, -⟩
  exact h b hCall

/-- A call after which a session is live and solved has solved it, or found it live and solved. -/
theorem solved_after {s : Session α} {call : Call α}
    (hLive : (call.perform.after s).poisoned = false)
    (hSolved : (call.perform.after s).status = .solved) :
    (∃ b program solution, call = .solve b ∧
      call.perform.after s = { s with status := .solved } ∧
      Action.solve b s = .ok solution { s with status := .solved } ∧
      Action.compile s = .ok program s ∧ program.solve? b s.parameters = some (.ok solution)) ∨
    s.poisoned = false ∧ s.status = .solved ∧ ¬ s.Solves call ∧
      (call.perform.after s).SameRecord s ∧
      ((∀ change, call ≠ .configure change) → (call.perform.after s).basis = s.basis) := by
  have hEnds := call.ends_perform s
  unfold Action.after at hLive hSolved ⊢
  generalize call.perform s = result at hEnds hLive hSolved ⊢
  cases hEnds with
  | configured change =>
    exact .inr ⟨hLive, hSolved, not_solves_of_ne (by simp),
      ⟨s.origins_configure change, rfl, rfl, rfl, rfl⟩, fun h => (h change rfl).elim⟩
  | refused hCall hPoisoned => cases hPoisoned.symm.trans hLive
  | poisoned _ hError hStanding =>
    rcases hStanding with hStanding | hStanding
    · cases (congrArg Standing.poisoned hStanding).symm.trans hLive
    · cases (congrArg Standing.poisoned hStanding).symm.trans hLive
  | declared hCall _ hStanding =>
    have hStatus := (congrArg Standing.status hStanding).symm.trans hSolved
    exact (s.standing.status_touch_ne_solved hStatus).elim
  | compiled =>
    exact .inr ⟨hLive, hSolved, not_solves_of_ne (by simp), .refl s, fun _ => rfl⟩
  | unassembled =>
    exact .inr ⟨hLive, hSolved, not_solves_of_ne (by simp), .refl s, fun _ => rfl⟩
  | closed b _ hFailure =>
    refine .inr ⟨hLive, hSolved, ?_, .refl s, fun _ => rfl⟩
    rintro ⟨b, solution, s', hCall, hResult⟩
    rw [solve_of_failure hLive hFailure] at hResult
    cases hResult
  | @solved b program solution _ hOpen hResult hCompile hSolve =>
    exact .inl ⟨b, program, solution, rfl, rfl, hResult, hCompile, hSolve⟩
  | failed b e => exact (Status.ofError_ne_solved e hSolved).elim

/-- After a run that ends live and solved, the last solve that succeeded has found the session as it
is now. -/
theorem solved_run {start : Session α} (hStart : start.status ≠ .solved) {calls : List (Call α)}
    (hLive : (start.run calls).poisoned = false) (hSolved : (start.run calls).status = .solved) :
    ∃ before b after, calls = before ++ .solve b :: after ∧
      (∃ program solution,
        Action.solve b (start.run before) =
          .ok solution { start.run before with status := .solved } ∧
        Action.compile (start.run before) = .ok program (start.run before) ∧
        program.solve? b (start.run before).parameters = some (.ok solution)) ∧
      (∀ mid call rest, after = mid ++ call :: rest →
        ¬ ((start.run (before ++ .solve b :: mid)).Solves call)) ∧
      (start.run calls).SameRecord (start.run before) ∧
      ((∀ change, .configure change ∉ after) →
        (start.run calls).basis = (start.run before).basis) := by
  induction calls using List.reverseRecOn with
  | nil => exact (hStart hSolved).elim
  | append_singleton calls call ih =>
    have hStep : start.run (calls ++ [call]) = call.perform.after (start.run calls) := by
      rw [run_append]
      rfl
    rw [hStep] at hLive hSolved ⊢
    rcases solved_after hLive hSolved with
      ⟨b, program, solution, rfl, hAfter, hResult, hCompile, hSolve⟩ |
      ⟨hLive', hSolved', hOther, hSame, hBasis⟩
    · refine ⟨calls, b, [], rfl, ⟨program, solution, hResult, hCompile, hSolve⟩, ?_, ?_, ?_⟩
      · rintro mid call rest hSplit
        cases mid <;> cases hSplit
      · rw [hAfter]
        exact ⟨rfl, rfl, rfl, rfl, rfl⟩
      · rw [hAfter]
        exact fun _ => rfl
    · obtain ⟨before, b, after, rfl, hSuccess, hLast, hRecord, hRegistry⟩ := ih hLive' hSolved'
      refine ⟨before, b, after ++ [call], by simp, hSuccess, ?_, hSame.trans hRecord, ?_⟩
      · intro mid other rest hSplit
        obtain rfl | ⟨rest, final, rfl⟩ := rest.eq_nil_or_concat
        · obtain ⟨rfl, hCall⟩ := List.append_inj' hSplit rfl
          cases hCall
          exact hOther
        · rw [List.concat_eq_append, ← List.cons_append, ← List.append_assoc] at hSplit
          exact hLast mid other rest (List.append_inj' hSplit rfl).1
      · intro hKept
        refine (hBasis fun change hCall => hKept change ?_).trans
          (hRegistry fun change hMem => hKept change (List.mem_append_left _ hMem))
        exact hCall ▸ List.mem_append_right _ (List.mem_singleton_self _)

end Solution

/-- The status of every session that is reached from a new one. It says whether a solve has failed,
and with which error; that error is final. A live session with the status of a solved one holds what
it held when the last solve succeeded, and compiles to the program that was solved. -/
theorem status_of_run (par : Parameters α) (calls : List (Call α)) :
    let s := (new par).run calls
    s.status ≠ .solving ∧
    ((∃ e, s.failure = some e) ↔
      s.status = .infeasible ∨ s.status = .unbounded ∨ s.status = .solverError) ∧
    (∀ e, s.failure = some e → s.status = .ofError e ∧ ∀ more : List (Call α),
      (s.run more).failure = some e ∧ (s.run more).status = s.status ∧
      ((s.run more).poisoned = false → ∀ b,
        Action.solve b (s.run more) = .error (.solve e) (s.run more))) ∧
    (s.poisoned = false → s.status = .solved →
      ∃ before b after, calls = before ++ .solve b :: after ∧
        let t := (new par).run before
        (∃ program solution, Action.solve b t = .ok solution { t with status := .solved } ∧
          program.solve? b t.parameters = some (.ok solution) ∧
          Action.compile t = .ok program t ∧ Action.compile s = .ok program s) ∧
        (∀ mid call rest, after = mid ++ call :: rest →
          ¬ ((new par).run (before ++ .solve b :: mid)).Solves call) ∧
        s.SameRecord t ∧ ((∀ change, .configure change ∉ after) → s.basis = t.basis)) := by
  intro s
  have hNew : (new par : Session α).standing.Sound := Or.inl rfl
  have hs : s.standing.Sound := sound_run hNew calls
  refine ⟨hs.status_ne_solving, hs.failure_eq_some_iff, fun e hFailure => ⟨?_, fun more => ?_⟩,
    fun hLive hSolved => ?_⟩
  · exact hs.status_eq hFailure
  · obtain ⟨hKept, hStatus⟩ := failure_run hs hFailure more
    exact ⟨hKept, hStatus, fun hLive => solve_of_failure hLive hKept⟩
  · have hStart : (new par : Session α).status ≠ .solved := by simp [new]
    obtain ⟨before, b, after, hCalls, ⟨program, solution, hResult, hCompile, hSolve⟩, hLast, hSame,
      hBasis⟩ := solved_run hStart hLive hSolved
    exact ⟨before, b, after, hCalls,
      ⟨program, solution, hResult, hSolve, hCompile, hSame.compile hLive hCompile⟩, hLast, hSame,
      hBasis⟩

section Example

/-- A solver which takes every program for infeasible. -/
noncomputable def pessimist : Backend ℝ where
  minEigenvalue _ := none
  squareRoot packed := packed
  solve _ _ := .error .infeasible

/-- A program without unknowns is solved without the solver. -/
theorem solve_nothing : ∃ solution,
    (⟨∅, 0, 0⟩ : Program ℝ).solve? pessimist onePoint = some (.ok solution) := by
  have hWidth : (⟨∅, 0, 0⟩ : Program ℝ).width = 0 := rfl
  have hRay : (⟨∅, 0, 0⟩ : Program ℝ).rayCheck? pessimist onePoint = some (.ok ()) := by
    simp [Program.rayCheck?, hWidth]
  have hAnswer : (⟨∅, 0, 0⟩ : Program ℝ).answer? pessimist onePoint = some (.ok ([], [])) := by
    simp [Program.answer?, hWidth]
  obtain ⟨s, hRead⟩ : ∃ s, (⟨∅, 0, 0⟩ : Program ℝ).read? [] [] = some s := ⟨_, rfl⟩
  refine ⟨{ s with warnings := [], certificate := none }, ?_⟩
  simp only [Program.solve?, hRay, hAnswer, hRead, Option.bind_eq_bind, Option.bind_some]
  have hJudge (d : Defect ℝ) (h : d.amount = 0) : onePoint.judge d = .ok [] := by
    simp [Parameters.judge, onePoint, h]
  have hAmount : (Solution.worst (α := ℝ) []).1 = 0 := zero_real
  have hPart : Solution.negativePart (none : Option ℝ) = 0 := zero_real
  simp only [Program.accept, Solution.defects, List.mapM_cons, List.mapM_nil]
  rw [hJudge _ hPart, hJudge _ hPart, hJudge _ hAmount, hJudge _ hAmount]
  rfl

noncomputable def solvedCalls : List (Call ℝ) :=
  [.setMetric 0, .solve pessimist]

noncomputable def failedCalls : List (Call ℝ) :=
  impossibleCalls ++ [.solve pessimist]

theorem after_solve (b : Backend α) (s : Session α) :
    (Call.solve b).perform.after s = (Action.solve b).after s := by
  change ((discard (Action.solve b) : Action α Unit)).after s = _
  rw [Action.after, Call.discard_eq, Action.after]
  cases Action.solve b s <;> rfl

theorem run_solvedCalls : (new onePoint).run solvedCalls =
    { (new onePoint : Session ℝ) with metric := some 0, status := .solved } := by
  have hMetric : (Call.setMetric 0).perform.after (new onePoint) =
      { (new onePoint : Session ℝ) with metric := some 0 } := rfl
  obtain ⟨solution, hSolve⟩ := solve_nothing
  have hCompile : Action.compile { (new onePoint : Session ℝ) with metric := some 0 } =
      .ok ⟨∅, 0, 0⟩ { (new onePoint : Session ℝ) with metric := some 0 } := by
    refine compile_eq_ok_iff.mpr ⟨rfl, rfl, ∅, 0, rfl, rfl, ?_⟩
    exact Program.assemble_eq_ok_iff.mpr ⟨rfl, rfl⟩
  rw [run, solvedCalls, List.foldl_cons, hMetric, List.foldl_cons, List.foldl_nil, after_solve,
    Action.after, solve_of_compile rfl hCompile hSolve]

theorem run_failedCalls : (new onePoint).run failedCalls =
    { (new onePoint).run impossibleCalls with
      status := .infeasible, failure := some .infeasible } := by
  rw [failedCalls, run_append]
  change (Call.solve pessimist).perform.after _ = _
  rw [after_solve, Action.after, solve_of_compile_error rfl compile_impossible]
  rfl

/-- A session about nothing is solved and compiles; a constraint that never holds fails the solve
for good. -/
theorem status_of_run_pessimist :
    ((new onePoint).run solvedCalls).poisoned = false ∧
    ((new onePoint).run solvedCalls).status = .solved ∧
    (∃ program, Action.compile ((new onePoint).run solvedCalls) =
      .ok program ((new onePoint).run solvedCalls)) ∧
    ((new onePoint).run failedCalls).failure = some .infeasible ∧
    ((new onePoint).run failedCalls).status = .infeasible ∧
    Action.solve pessimist (((new onePoint).run failedCalls).run [.newValue]) =
      .error (.solve .infeasible) (((new onePoint).run failedCalls).run [.newValue]) := by
  have hLive : ((new onePoint).run solvedCalls).poisoned = false := by
    rw [run_solvedCalls]
    rfl
  have hSolved : ((new onePoint).run solvedCalls).status = .solved := by
    rw [run_solvedCalls]
  have hFailure : ((new onePoint).run failedCalls).failure = some .infeasible := by
    rw [run_failedCalls]
  have hLive' : (((new onePoint).run failedCalls).run [.newValue]).poisoned = false := by
    rw [run_failedCalls]
    rfl
  obtain ⟨-, -, -, hLast⟩ := status_of_run onePoint solvedCalls
  obtain ⟨_, _, _, _, ⟨program, _, _, _, _, hCompile⟩, -⟩ := hLast hLive hSolved
  obtain ⟨-, -, hFinal, -⟩ := status_of_run onePoint failedCalls
  obtain ⟨hStatus, hRun⟩ := hFinal _ hFailure
  exact ⟨hLive, hSolved, ⟨program, hCompile⟩, hFailure, hStatus,
    (hRun [.newValue]).2.2 hLive' pessimist⟩

end Example

end Session

end PerformanceEstimation
