import Mathlib
import PerformanceEstimation.Proofs.Program.Multipliers
import PerformanceEstimation.Proofs.Session.Poisoning
import PerformanceEstimation.Proofs.Store.Conflicts

/-!
# Identifiers of constraints

An identifier is the position at which a constraint was accepted. Whatever else a session goes
through, its programs have the accepted constraints under their identifiers, then the conditions of
the functions, one function after the other. The identifiers of an error, of a multiplier or of a
certificate are read the same way (`constraintIds_stable`).
-/

set_option autoImplicit false

namespace PerformanceEstimation

variable {α β γ : Type}

namespace Call

def statedEntry? : Call α → Option (StoredConstraint α)
  | initialCondition c => some ⟨c, .initialCondition⟩
  | functionConstraint f c => some ⟨c, .function f⟩
  | _ => none

theorem stated?_eq (call : Call α) : call.stated? = call.statedEntry?.map (·.constraint) := by
  cases call <;> rfl

variable [Scalar α]

/-- What the call adds to the declared constraints of a session. -/
def acceptedEntries (call : Call α) (s : Session α) : List (StoredConstraint α) :=
  match call.perform s with
  | .ok .. => call.statedEntry?.toList
  | .error .. => []

end Call

namespace Session

variable [Scalar α]

def acceptedEntries (s : Session α) : List (Call α) → List (StoredConstraint α)
  | [] => []
  | call :: calls => call.acceptedEntries s ++ (call.perform.after s).acceptedEntries calls

/-- What the class of a function asks of its triples. Nothing is asked of a sum. -/
def conditions (s : Session α) (f : ℕ) : List (StoredConstraint α) :=
  match s.functions[f]? with
  | some (.leaf cls triples) => (cls.interpolation triples).map fun i =>
    ⟨i.constraint, .interpolation ⟨f⟩ i.k i.l⟩
  | _ => []

end Session

section Offers

/-- How an action may end that offers a constraint to the declared ones. -/
inductive Session.Offers [Scalar α] (s : Session α) (entry : StoredConstraint α) :
    EStateM.Result (SessionError α) (Session α) β → Prop
  | accepted {b : β} {id : ConstraintId} {s' : Session α}
    (hPush : s.declared.push entry.constraint entry.origin = .ok (id, s'.declared)) :
    Offers s entry (.ok b s')
  | refused {conflict : Conflict} {s' : Session α}
    (hPush : s.declared.push entry.constraint entry.origin = .error conflict)
    (hSame : s'.declared = s.declared) : Offers s entry (.error (.conflict conflict) s')
  | failed {e : SessionError α} {s' : Session α} (hOther : ∀ conflict, e ≠ .conflict conflict)
    (hSame : s'.declared = s.declared) : Offers s entry (.error e s')

namespace Action

def Looks (act : Action α β) (s : Session α) : Prop :=
  match act s with
  | .ok _ s' => s' = s
  | .error e s' => s' = s ∧ ∀ conflict, e ≠ .conflict conflict

/-- The action leaves the session as it is, and does not fail with a conflict. -/
def Checks (act : Action α β) : Prop :=
  ∀ s, Looks act s

theorem checks_fail (e : ConstructionError) : Checks (fail e : Action α β) :=
  fun _ => ⟨rfl, fun _ => nofun⟩

theorem checks_get_bind {next : Session α → Action α β} (h : ∀ s, Looks (next s) s) :
    Checks (get >>= next) :=
  h

theorem checks_lookup (f : FunctionId) : Checks (lookup f : Action α (FunctionBody α)) := by
  intro s
  rw [Looks, lookup_eq]
  cases s.functions[f.pos]? with
  | none => exact ⟨rfl, fun _ => nofun⟩
  | some body => rfl

theorem checks_checkExpression (e : Expression α) : Checks (checkExpression e) := by
  refine checks_get_bind fun s => ?_
  dsimp only
  split
  · exact checks_fail _ s
  · split
    · exact checks_fail _ s
    · rfl

variable [Scalar α] {entry : StoredConstraint α} {s : Session α}

theorem Checks.bind_offers {act : Action α β} {next : β → Action α γ} (hAct : Checks act)
    (hNext : ∀ b, s.Offers entry (next b s)) : s.Offers entry ((act >>= next) s) := by
  have hChecked := hAct s
  unfold Looks at hChecked
  simp only [Bind.bind, EStateM.bind]
  cases hResult : act s with
  | ok b s' =>
    rw [hResult] at hChecked
    cases hChecked
    exact hNext b
  | error e s' =>
    rw [hResult] at hChecked
    obtain ⟨rfl, hOther⟩ := hChecked
    exact .failed hOther rfl

theorem offers_declaring {act : Action α β} (h : s.Offers entry (act s)) :
    s.Offers entry (declaring act s) := by
  rw [declaring_eq]
  split
  · exact .failed (fun _ => nofun) rfl
  · generalize act s = result at h ⊢
    cases h with
    | accepted hPush => exact .accepted hPush
    | refused hPush hSame => exact .refused hPush hSame
    | failed hOther hSame => exact .failed hOther hSame

theorem offers_pushConstraint (c : Constraint α) (origin : ConstraintOrigin) (s : Session α) :
    s.Offers ⟨c, origin⟩ (pushConstraint c origin s) := by
  refine (checks_checkExpression c.lhs).bind_offers fun _ => ?_
  simp only [Bind.bind, EStateM.bind, get, getThe, MonadStateOf.get, EStateM.get]
  cases hPush : s.declared.push c origin with
  | ok result => exact .accepted hPush
  | error conflict => exact .refused hPush rfl

end Action

end Offers

section Entries

variable [Scalar α]

theorem Call.offers_perform {call : Call α} {entry : StoredConstraint α}
    (h : call.statedEntry? = some entry) (s : Session α) :
    s.Offers entry (call.perform s) := by
  cases call with
  | initialCondition c =>
    cases h
    exact Action.offers_declaring (Action.offers_pushConstraint c _ s)
  | functionConstraint f c =>
    cases h
    exact Action.offers_declaring
      ((Action.checks_lookup f).bind_offers fun _ => Action.offers_pushConstraint c _ s)
  | _ => cases h

theorem Call.entries_after (call : Call α) (s : Session α) :
    (call.perform.after s).declared.entries = s.declared.entries ++ call.acceptedEntries s := by
  cases hStated : call.statedEntry? with
  | none =>
    have hNone : call.acceptedEntries s = [] := by
      unfold acceptedEntries
      rw [hStated]
      split <;> rfl
    rw [Call.within_perform Session.admits_declared (by rw [stated?_eq, hStated]; rfl) s, hNone,
      List.append_nil]
  | some entry =>
    have hOffers := call.offers_perform hStated s
    unfold acceptedEntries Action.after
    rw [hStated]
    generalize call.perform s = result at hOffers ⊢
    cases hOffers with
    | accepted hPush => exact Store.entries_push hPush
    | refused _ hSame => exact hSame ▸ (List.append_nil _).symm
    | failed _ hSame => exact hSame ▸ (List.append_nil _).symm

namespace Session

theorem entries_run (s : Session α) (calls : List (Call α)) :
    (s.run calls).declared.entries = s.declared.entries ++ s.acceptedEntries calls := by
  induction calls generalizing s with
  | nil => exact (List.append_nil _).symm
  | cons call calls ih =>
    rw [run, List.foldl_cons, ← run, ih, call.entries_after, acceptedEntries, List.append_assoc]

theorem entries_run_new (par : Parameters α) (calls : List (Call α)) :
    ((new par).run calls).declared.entries = (new par).acceptedEntries calls :=
  entries_run (new par) calls

theorem acceptedEntries_append (s : Session α) (calls more : List (Call α)) :
    s.acceptedEntries (calls ++ more) =
      s.acceptedEntries calls ++ (s.run calls).acceptedEntries more := by
  have hRun := s.entries_run (calls ++ more)
  rw [run_append, entries_run, entries_run, List.append_assoc] at hRun
  exact (List.append_cancel_left hRun).symm

theorem interpolations_eq (s : Session α) :
    s.interpolations = (List.range s.functions.length).flatMap s.conditions := by
  rw [interpolations, List.flatMap_def, List.flatMap_def]
  congr 1
  apply List.ext_getElem (by simp)
  intro f hf hf'
  have hFunction : f < s.functions.length := by simpa using hf
  rw [List.getElem_map, List.getElem_map, List.getElem_zipIdx, List.getElem_range, conditions,
    List.getElem?_eq_getElem hFunction, Nat.zero_add]
  cases s.functions[f] <;> rfl

theorem solve_eq_ok {b : Backend α} {s s' : Session α} {solution : Solution α}
    (h : Action.solve b s = .ok solution s') : ∃ program, Action.compile s = .ok program s ∧
      program.solve? b s.parameters = some (.ok solution) := by
  have hEnds := Call.ends_solve b s
  have hPerform : (Call.solve b).perform s = .ok () s' := by
    rw [Call.perform, Call.discard_eq, h]
  rw [hPerform] at hEnds
  cases hEnds with
  | declared hCall => cases hCall
  | solved _ _ hResult hCompile hSolve =>
    cases h.symm.trans hResult
    exact ⟨_, hCompile, hSolve⟩

/-- Constraints keep their identifiers. A program that is compiled after a run of calls, or after
any more calls, has the constraints accepted in the run under their positions, and after all that
are accepted only the conditions of the functions, in order. The identifiers that a call reports
with a conflict, and those of a solution, mean the same constraints. -/
theorem constraintIds_stable (par : Parameters α) (calls more : List (Call α)) :
    (∀ program s', Action.compile ((new par).run (calls ++ more)) = .ok program s' →
      (∀ i entry, ((new par).acceptedEntries calls)[i]? = some entry →
        program.store.get? ⟨i⟩ = some entry) ∧
      program.store.entries = (new par).acceptedEntries (calls ++ more) ++
        (List.range ((new par).run (calls ++ more)).functions.length).flatMap
          ((new par).run (calls ++ more)).conditions) ∧
    (∀ (call : Call α) entry conflict s', call.statedEntry? = some entry →
      call.perform ((new par).run calls) = .error (.conflict conflict) s' →
      conflict.added = ⟨((new par).acceptedEntries calls).length⟩ ∧
      ∃ old, ((new par).acceptedEntries calls)[conflict.existing.pos]? = some old ∧
        old.constraint.sense = .equal ∧
        Store.conflictKind? old.constraint.lhs entry.constraint.lhs = some conflict.kind) ∧
    ∀ b solution s', Action.solve b ((new par).run (calls ++ more)) = .ok solution s' →
      ∃ program x y, Action.compile ((new par).run (calls ++ more)) =
          .ok program ((new par).run (calls ++ more)) ∧
        program.answer? b ((new par).run (calls ++ more)).parameters = some (.ok (x, y)) ∧
        solution.Attributes program y := by
  refine ⟨fun program s' hCompile => ?_, ?_, ?_⟩
  · obtain ⟨-, -, store, metric, hStore, -, hAssemble⟩ := compile_eq_ok_iff.mp hCompile
    obtain ⟨-, rfl⟩ := Program.assemble_eq_ok_iff.mp hAssemble
    have hEntries := entries_of_compiledStore hStore
    rw [entries_run_new, interpolations_eq] at hEntries
    refine ⟨fun i entry hEntry => ?_, hEntries⟩
    -- what the run accepted is a prefix of what the program holds
    have hBound := (List.getElem?_eq_some_iff.mp hEntry).1
    rw [acceptedEntries_append, List.append_assoc] at hEntries
    rw [Store.get?, hEntries, List.getElem?_append_left hBound, hEntry]
  · intro call entry conflict s' hStated hPerform
    have hOffers := call.offers_perform hStated ((new par).run calls)
    rw [hPerform] at hOffers
    cases hOffers with
    | failed hOther => exact (hOther conflict rfl).elim
    | refused hPush =>
      obtain ⟨-, hAdded, old, hOld, hSense, hKind⟩ :=
        Store.conflict?_eq_some (Store.push_eq_error_iff.mp hPush)
      rw [Store.get?, entries_run_new] at hOld
      rw [Store.size, entries_run_new] at hAdded
      exact ⟨hAdded, old, hOld, hSense, hKind⟩
  · intro b solution s' hSolve
    obtain ⟨program, hCompile, hSolve⟩ := solve_eq_ok hSolve
    obtain ⟨x, y, hAnswer, hAttributes⟩ := Program.attributes_of_solve? hSolve
    exact ⟨program, x, y, hCompile, hAnswer, hAttributes⟩

section Example

attribute [local instance] atLeastTwo_two

/-- Functions with values of at most one. -/
noncomputable def atMostOne : FunctionClass ℝ :=
  .custom "at most one" false fun t _ => ⟨⟨t.value.values, [], -1⟩, .lessEq⟩

noncomputable def firstIsOne : Constraint ℝ :=
  ⟨⟨[(⟨0⟩, 1)], [], -1⟩, .equal⟩

noncomputable def statingCalls : List (Call ℝ) :=
  [.declareFunction atMostOne, .newValue, .functionConstraint ⟨0⟩ firstIsOne,
    .initialCondition ⟨.const (-1), .lessEq⟩]

noncomputable def laterCalls : List (Call ℝ) :=
  [.newValue, .addPoint ⟨0⟩ 0 0 ⟨[(⟨0⟩, 1)], [], 0⟩, .addPoint ⟨0⟩ 0 0 ⟨[(⟨1⟩, 1)], [], 0⟩,
    .setMetric ⟨[(⟨0⟩, 1), (⟨1⟩, 1)], [], 0⟩]

noncomputable def twoValues : Session ℝ where
  parameters := onePoint
  basis := ⟨1, []⟩
  valueCount := 2
  functions := [.leaf atMostOne [⟨0, 0, ⟨[(⟨0⟩, 1)], [], 0⟩⟩, ⟨0, 0, ⟨[(⟨1⟩, 1)], [], 0⟩⟩]]
  declared := ⟨[⟨firstIsOne, .function ⟨0⟩⟩, ⟨⟨.const (-1), .lessEq⟩, .initialCondition⟩]⟩
  metric := some ⟨[(⟨0⟩, 1), (⟨1⟩, 1)], [], 0⟩
  status := .unsolved
  failure := none
  poisoned := false

noncomputable def twoValuesProgram : Program ℝ where
  store := ⟨[⟨firstIsOne, .function ⟨0⟩⟩, ⟨⟨.const (-1), .lessEq⟩, .initialCondition⟩,
    ⟨⟨⟨[(⟨0⟩, 1)], [], -1⟩, .lessEq⟩, .interpolation ⟨0⟩ 0 1⟩,
    ⟨⟨⟨[(⟨1⟩, 1)], [], -1⟩, .lessEq⟩, .interpolation ⟨0⟩ 1 0⟩]⟩
  metric := ⟨[(⟨0⟩, 1), (⟨1⟩, 1)], [], 0⟩
  order := 0

theorem run_stating_later :
    (new onePoint).run (statingCalls ++ laterCalls) = twoValues := by
  rfl

theorem compile_twoValues : Action.compile twoValues = .ok twoValuesProgram twoValues := by
  refine compile_eq_ok_iff.mpr ⟨rfl, rfl, twoValuesProgram.store, _, rfl, rfl, ?_⟩
  refine Program.assemble_eq_ok_iff.mpr ⟨Store.triviallyViolated?_eq_none_iff.mpr ?_, rfl⟩
  simp [twoValuesProgram, firstIsOne, Constraint.isTriviallyViolated, Constraint.violation,
    Expression.isConstant, Expression.const]

noncomputable def oneAnswer : Backend ℝ where
  minEigenvalue _ := none
  squareRoot packed := packed
  solve _ _ := .ok ([1, 1], [-1, 2, 1])

theorem worst_eq_zero {amounts : List (ConstraintId × ℝ)} (h : ∀ amount ∈ amounts, amount.2 = 0) :
    (Solution.worst amounts).1 = 0 := by
  unfold Solution.worst
  induction amounts with
  | nil => exact zero_real
  | cons amount amounts ih =>
    obtain ⟨id, a⟩ := amount
    obtain ⟨hHead, hTail⟩ := List.forall_mem_cons.mp h
    rw [List.foldl_cons]
    dsimp only at hHead ⊢
    rw [hHead, if_neg (by simp)]
    exact ih hTail

theorem exists_accept_of_tight {p : Program ℝ} {s : Solution ℝ}
    (hTight : ∀ row ∈ p.rows, s.eval row.2.constraint.lhs = 0) :
    ∃ solution, p.accept oneAnswer onePoint s = .ok solution := by
  have hJudge (d : Defect ℝ) (h : d.amount = 0) :
      Parameters.judge onePoint d = .ok [] := by
    simp [Parameters.judge, onePoint, h]
  have hPart : Solution.negativePart (none : Option ℝ) = 0 := zero_real
  have hViolation : (Solution.worst (s.violations p)).1 = 0 := by
    refine worst_eq_zero fun amount hAmount => ?_
    obtain ⟨row, hRow, rfl⟩ := List.mem_map.mp hAmount
    cases hSense : row.2.constraint.sense <;>
      simp [Constraint.violation, hSense, hTight row hRow]
  have hSlackness : (Solution.worst (s.slacknesses p)).1 = 0 := by
    refine worst_eq_zero fun amount hAmount => ?_
    obtain ⟨row, hRow, rfl⟩ := List.mem_map.mp hAmount
    simp [hTight row (List.mem_filter.mp hRow).1]
  simp only [Program.accept, Solution.defects, List.mapM_cons, List.mapM_nil]
  rw [hJudge _ hPart, hJudge _ hPart, hJudge _ hViolation, hJudge _ hSlackness]
  exact ⟨_, rfl⟩

theorem rows_twoValuesProgram : twoValuesProgram.rows = [(⟨0⟩, ⟨firstIsOne, .function ⟨0⟩⟩),
    (⟨2⟩, ⟨⟨⟨[(⟨0⟩, 1)], [], -1⟩, .lessEq⟩, .interpolation ⟨0⟩ 0 1⟩),
    (⟨3⟩, ⟨⟨⟨[(⟨1⟩, 1)], [], -1⟩, .lessEq⟩, .interpolation ⟨0⟩ 1 0⟩)] :=
  rfl

theorem answer_twoValuesProgram {b : Backend ℝ} {x y : List ℝ}
    (h : ∀ c, b.solve onePoint c = .ok (x, y)) :
    twoValuesProgram.answer? b onePoint = some (.ok (x, y)) := by
  have hWidth : twoValuesProgram.width = 2 := rfl
  obtain ⟨c, hLower⟩ : ∃ c, twoValuesProgram.lower? = some c := Option.isSome_iff_exists.mp rfl
  rw [Program.answer?, if_neg (by simp [hWidth]), hLower, Option.map_some, h c]
  rfl

theorem rayCheck_twoValuesProgram (b : Backend ℝ) :
    twoValuesProgram.rayCheck? b onePoint = some (.ok ()) := by
  simp [Program.rayCheck?, Program.isHomogeneous, rows_twoValuesProgram, firstIsOne]

theorem solve_twoValuesProgram : ∃ solution,
    twoValuesProgram.solve? oneAnswer onePoint = some (.ok solution) := by
  have hRay := rayCheck_twoValuesProgram oneAnswer
  have hAnswer := answer_twoValuesProgram (b := oneAnswer) fun _ => rfl
  obtain ⟨s, hRead, hFirst, hSecond⟩ : ∃ s, twoValuesProgram.read? [1, 1] [-1, 2, 1] = some s ∧
      s.valueOf ⟨0⟩ = 1 ∧ s.valueOf ⟨1⟩ = 1 := ⟨_, rfl, rfl, rfl⟩
  have hTight : ∀ row ∈ twoValuesProgram.rows, s.eval row.2.constraint.lhs = 0 := by
    simp [rows_twoValuesProgram, firstIsOne, Solution.eval, Expression.evalAt, hFirst, hSecond]
  obtain ⟨solution, hAccept⟩ := exists_accept_of_tight hTight
  refine ⟨solution, ?_⟩
  simp only [Program.solve?, hRay, hAnswer, hRead, Option.bind_eq_bind,
    Option.bind_some, hAccept]
  rfl

noncomputable def firstIsTwo : Constraint ℝ :=
  ⟨⟨[(⟨0⟩, 1)], [], -2⟩, .equal⟩

theorem initialCondition_firstIsTwo : (Call.initialCondition firstIsTwo).perform
    ((new onePoint).run statingCalls) = .error (.conflict ⟨.contradictory, ⟨0⟩, ⟨2⟩⟩)
      { (new onePoint).run statingCalls with poisoned := true } := by
  have hKind : Store.conflictKind? firstIsOne.lhs firstIsTwo.lhs = some .contradictory := by
    simp [Store.conflictKind?, firstIsOne, firstIsTwo, Expression.linearPart]
  have hPush : ((new onePoint).run statingCalls).declared.push firstIsTwo .initialCondition =
      .error ⟨.contradictory, ⟨0⟩, ⟨2⟩⟩ := by
    have hDeclared : ((new onePoint).run statingCalls).declared = twoValues.declared := rfl
    have hActive : firstIsTwo.isActive .equal = true := rfl
    have hSense : firstIsOne.sense = .equal := rfl
    rw [hDeclared, Store.push_eq_error_iff, Store.conflict?, if_pos hActive]
    simp [Store.items, twoValues, hSense, hKind, Store.size]
  have hRefused : Action.pushConstraint firstIsTwo .initialCondition
      ((new onePoint).run statingCalls) = .error (.conflict ⟨.contradictory, ⟨0⟩, ⟨2⟩⟩)
        ((new onePoint).run statingCalls) := by
    have hChecked : Action.checkExpression firstIsTwo.lhs ((new onePoint).run statingCalls) =
      .ok () ((new onePoint).run statingCalls) := rfl
    simp only [Action.pushConstraint, Bind.bind, EStateM.bind, hChecked, get, getThe,
      MonadStateOf.get, EStateM.get, hPush]
    rfl
  rw [Call.perform, Action.initialCondition, Action.declaring_eq, hRefused]
  rfl

theorem constraintIds_stable_twoValues :
    (∃ program s', Action.compile ((new onePoint).run (statingCalls ++ laterCalls)) =
        .ok program s' ∧
      program.store.get? ⟨0⟩ = some ⟨firstIsOne, .function ⟨0⟩⟩ ∧
      program.store.get? ⟨1⟩ = some ⟨⟨.const (-1), .lessEq⟩, .initialCondition⟩) ∧
    (∃ conflict s', (Call.initialCondition firstIsTwo).perform ((new onePoint).run statingCalls) =
        .error (.conflict conflict) s' ∧ conflict.added = ⟨2⟩ ∧
      ((new onePoint).acceptedEntries statingCalls)[conflict.existing.pos]? =
        some ⟨firstIsOne, .function ⟨0⟩⟩) ∧
    ∃ (solution : Solution ℝ) (s' : Session ℝ),
      Action.solve oneAnswer ((new onePoint).run (statingCalls ++ laterCalls)) =
        .ok solution s' ∧
      solution.multipliers[0]? = some (-1 : ℝ) ∧ solution.multipliers[1]? = some 0 ∧
      solution.multipliers[2]? = some 2 := by
  obtain ⟨hPrograms, hConflicts, hSolutions⟩ :=
    constraintIds_stable onePoint statingCalls laterCalls
  obtain ⟨hAdded, -⟩ := hConflicts _ _ _ _ rfl initialCondition_firstIsTwo
  rw [run_stating_later] at hPrograms hSolutions ⊢
  obtain ⟨hStored, -⟩ := hPrograms _ _ compile_twoValues
  obtain ⟨solution, hSolve⟩ := solve_twoValuesProgram
  have hSolved := solve_of_compile rfl compile_twoValues hSolve
  obtain ⟨program, x, y, hCompile, hAnswer, hAttributes⟩ := hSolutions _ _ _ hSolved
  cases compile_twoValues.symm.trans hCompile
  cases (answer_twoValuesProgram fun _ => rfl).symm.trans hAnswer
  refine ⟨⟨_, _, compile_twoValues, hStored 0 _ rfl, hStored 1 _ rfl⟩,
    ⟨_, _, initialCondition_firstIsTwo, hAdded, rfl⟩, solution, _, hSolved, ?_, ?_, ?_⟩
  · obtain ⟨r, hRow, -, hMultiplier⟩ := hAttributes.row ⟨0⟩ _ rfl rfl
    have hFirst : twoValuesProgram.rowIds.idxOf? ⟨0⟩ = some 0 := rfl
    cases hFirst.symm.trans (Program.idxOf?_rowIds hRow)
    exact hMultiplier
  · exact (hAttributes.constant ⟨1⟩ _ rfl rfl).trans (congrArg some zero_real)
  · obtain ⟨r, hRow, -, hMultiplier⟩ := hAttributes.row ⟨2⟩ _ rfl rfl
    have hSecond : twoValuesProgram.rowIds.idxOf? ⟨2⟩ = some 1 := rfl
    cases hSecond.symm.trans (Program.idxOf?_rowIds hRow)
    exact hMultiplier

end Example

end Session

end Entries

end PerformanceEstimation
