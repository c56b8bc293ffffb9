import Mathlib
import PerformanceEstimation.Proofs.Session.Compilation
import PerformanceEstimation.Proofs.Session.Discipline

/-!
# How calls end

There are few ways in which a call can end, and `Call.Ends` lists them for all calls of the interface
(`Call.ends_perform`).

Poisoning is exact: a session is poisoned by the errors of its declaration and by nothing else, and
stays so for the rest of the run (`poisoning_exact`).
-/

set_option autoImplicit false

namespace PerformanceEstimation

open Session

variable {α : Type}

section Endings

variable [Scalar α]

open PerformanceEstimation.Action

theorem Session.solve_eq (b : Backend α) (s : Session α) : Action.solve b s =
    if s.poisoned then .error (.construction .poisoned) s
    else match s.failure with
      | some e => .error (.solve e) s
      | none => match Action.poisoning Action.compileStore s with
        | .error e s' => .error e s'
        | .ok (store, metric) s' => match solveStore b s' store metric with
          | .ok solution => .ok solution { s' with status := .solved }
          | .error e =>
            .error (.solve e) { s' with status := .ofError e, failure := some e } := by
  simp only [Action.solve, Bind.bind, EStateM.bind, live_eq]
  by_cases hPoisoned : s.poisoned = true
  · rw [if_pos hPoisoned, if_pos hPoisoned]
  · rw [if_neg hPoisoned, if_neg hPoisoned]
    simp only [get, getThe, MonadStateOf.get, EStateM.get]
    cases s.failure with
    | some e => rfl
    | none =>
      simp only [EStateM.bind]
      cases Action.poisoning Action.compileStore s with
      | error e s' => rfl
      | ok compiled s' =>
        -- the status in between is of no account to the solver
        have hStatus : solveStore b { s' with status := .solving } compiled.1 compiled.2 =
            solveStore b s' compiled.1 compiled.2 := rfl
        simp only [modify, modifyGet, MonadStateOf.modifyGet, EStateM.modifyGet, EStateM.get,
          hStatus]
        cases solveStore b s' compiled.1 compiled.2 <;> rfl

theorem Session.solve_of_compile {s s' : Session α} (hOpen : s.failure = none)
    {program : Program α} (h : Action.compile s = .ok program s') {b : Backend α}
    {solution : Solution α} (hSolve : program.solve? b s.parameters = some (.ok solution)) :
    Action.solve b s = .ok solution { s with status := .solved } := by
  obtain ⟨hLive, -, store, metric, hStore, hMetric, hProgram⟩ := compile_eq_ok_iff.mp h
  have hStored : solveStore b s store metric = .ok solution := by
    simp only [solveStore, hProgram]
    exact congrArg (Option.getD · _) hSolve
  rw [solve_eq, if_neg (by simp [hLive]), poisoning_compileStore_eq]
  simp only [hOpen, hMetric, hStore, hStored]

/-- A session that is found infeasible as it is compiled fails without being handed to the solver. -/
theorem Session.solve_of_compile_error {s s' : Session α} (hOpen : s.failure = none)
    {e : SolveError α} (h : Action.compile s = .error (.solve e) s') (b : Backend α) :
    Action.solve b s = .error (.solve e) { s with status := .ofError e, failure := some e } := by
  obtain ⟨hLive, -, store, metric, hStore, hMetric, hProgram⟩ := compile_eq_solveError_iff.mp h
  rw [solve_eq, if_neg (by simp [hLive]), poisoning_compileStore_eq]
  simp only [hOpen, hMetric, hStore, solveStore, hProgram]
  rfl

namespace Call

/-- Everything but a change of the parameters may fail. -/
def Fallible : Call α → Prop
  | configure _ => False
  | _ => True

def Declaring : Call α → Prop
  | configure _ | compile | solve _ => False
  | _ => True

/-- How a call may end in a session. -/
inductive Ends (s : Session α) :
    Call α → EStateM.Result (SessionError α) (Session α) Unit → Prop
  | configured (change : Parameters α → Parameters α) :
    Ends s (.configure change) (.ok () (s.configure change))
  | refused {call : Call α} (hCall : call.Fallible) (hPoisoned : s.poisoned = true) :
    Ends s call (.error (.construction .poisoned) s)
  | poisoned {call : Call α} {e : SessionError α} {s' : Session α} (hLive : s.poisoned = false)
    (hError : e.isConstructionTime = true)
    (hStanding : s'.standing = s.standing.poison ∨ s'.standing = s.standing.touch.poison) :
    Ends s call (.error e s')
  | declared {call : Call α} {s' : Session α} (hCall : call.Declaring) (hLive : s.poisoned = false)
    (hStanding : s'.standing = s.standing.touch) : Ends s call (.ok () s')
  | compiled (hLive : s.poisoned = false) : Ends s .compile (.ok () s)
  | unassembled (hLive : s.poisoned = false) (e : SolveError α) :
    Ends s .compile (.error (.solve e) s)
  | closed (b : Backend α) {e : SolveError α} (hLive : s.poisoned = false)
    (hFailure : s.failure = some e) : Ends s (.solve b) (.error (.solve e) s)
  | solved {b : Backend α} {program : Program α} {solution : Solution α}
    (hLive : s.poisoned = false) (hOpen : s.failure = none)
    (hResult : Action.solve b s = .ok solution { s with status := .solved })
    (hCompile : Action.compile s = .ok program s)
    (hSolve : program.solve? b s.parameters = some (.ok solution)) :
    Ends s (.solve b) (.ok () { s with status := .solved })
  | failed (b : Backend α) (e : SolveError α) (hLive : s.poisoned = false)
    (hOpen : s.failure = none) :
    Ends s (.solve b) (.error (.solve e) { s with status := .ofError e, failure := some e })

theorem isDeclaration_perform {call : Call α} (h : call.Declaring) :
    IsDeclaration call.perform := by
  cases call with
  | configure change => cases h
  | declareFunction cls => exact (isDeclaration_declareFunction cls).map _
  | declareSum terms =>
    exact ((declares_checkSum terms).bind fun _ => declares_appendFunction _).declaring.map _
  | initialPoint => exact (declares_newBasis _).declaring.map _
  | newValue => exact declares_nextValue.declaring.map _
  | newGradient f => exact (isDeclaration_newGradient f).map _
  | stationaryPoint f => exact (isDeclaration_stationaryPoint f).map _
  | oracle f x => exact (isDeclaration_oracle f x).map _
  | gradient f x => exact ((isDeclaration_oracle f x).map _).map _
  | value f x => exact (isDeclaration_value f x).map _
  | addPoint f x g v => exact isDeclaration_addPoint f x g v
  | initialCondition c => exact (declares_pushConstraint c _).declaring
  | functionConstraint f c =>
    exact ((declares_lookup f).bind fun _ => declares_pushConstraint c _).declaring
  | setMetric e => exact isDeclaration_setMetric e
  | gradientStep f x step => exact ((isDeclaration_oracle f x).map _).map _
  | proximalStep f x step => exact (isDeclaration_proximalStep f x step).map _
  | compile => cases h
  | solve b => cases h

omit [Scalar α] in
theorem discard_eq {β : Type} (act : Action α β) (s : Session α) :
    (discard act : Action α Unit) s = match act s with
      | .ok _ s' => .ok () s'
      | .error e s' => .error e s' := by
  simp only [discard, Functor.discard, Functor.mapConst, EStateM.map, Function.comp]
  cases act s <;> rfl

theorem solveStore_eq_ok {b : Backend α} {s : Session α} {store : Store α} {metric : Expression α}
    {solution : Solution α} (h : solveStore b s store metric = .ok solution) :
    ∃ program, Program.assemble store metric s.basis.size = .ok program ∧
      program.solve? b s.parameters = some (.ok solution) := by
  unfold solveStore at h
  cases hProgram : Program.assemble store metric s.basis.size with
  | error e =>
    rw [hProgram] at h
    cases h
  | ok program =>
    rw [hProgram] at h
    refine ⟨program, rfl, ?_⟩
    change (program.solve? b s.parameters).getD _ = _ at h
    cases hSolve : program.solve? b s.parameters with
    | none =>
      rw [hSolve] at h
      cases h
    | some result =>
      rw [hSolve] at h
      exact congrArg some h

theorem ends_declaring {call : Call α} (h : call.Declaring) (s : Session α) :
    Ends s call (call.perform s) := by
  have hCall := isDeclaration_perform h
  by_cases hPoisoned : s.poisoned = true
  · rw [hCall.refuse hPoisoned]
    refine .refused ?_ hPoisoned
    cases call <;> trivial
  · have hLive : s.poisoned = false := by simpa using hPoisoned
    cases hResult : call.perform s with
    | ok u s' => exact .declared h hLive (hCall.succeed hResult)
    | error e s' =>
      obtain ⟨hError, hStanding⟩ := hCall.poison hLive hResult
      exact .poisoned hLive hError hStanding

theorem poisoning_compileStore_cases (s : Session α) :
    (∃ e, e.isConstructionTime = true ∧
      poisoning compileStore s = .error e { s with poisoned := true }) ∨
    ∃ store metric, s.compiledStore = .ok store ∧ s.metric = some metric ∧
      poisoning compileStore s = .ok (store, metric) s := by
  rw [poisoning_compileStore_eq]
  split
  · exact .inl ⟨_, rfl, rfl⟩
  · rename_i metric hMetric
    split
    · exact .inl ⟨_, rfl, rfl⟩
    · rename_i store hStore
      exact .inr ⟨store, metric, hStore, hMetric, rfl⟩

theorem ends_compile (s : Session α) : Ends s .compile (perform .compile s) := by
  change Ends s .compile ((discard Action.compile : Action α Unit) s)
  rw [discard_eq, compile_eq]
  by_cases hPoisoned : s.poisoned = true
  · rw [if_pos hPoisoned]
    exact .refused trivial hPoisoned
  · rw [if_neg hPoisoned]
    have hLive : s.poisoned = false := by simpa using hPoisoned
    cases s.metric with
    | none => exact .poisoned hLive rfl (.inl rfl)
    | some metric =>
      cases s.compiledStore with
      | error conflict => exact .poisoned hLive rfl (.inl rfl)
      | ok store =>
        dsimp only
        cases Program.assemble store metric s.basis.size with
        | error e => exact .unassembled hLive e
        | ok program => exact .compiled hLive

theorem ends_solve (b : Backend α) (s : Session α) : Ends s (.solve b) (perform (.solve b) s) := by
  change Ends s (.solve b) ((discard (Action.solve b) : Action α Unit) s)
  rw [discard_eq, solve_eq]
  by_cases hPoisoned : s.poisoned = true
  · rw [if_pos hPoisoned]
    exact .refused trivial hPoisoned
  rw [if_neg hPoisoned]
  have hLive : s.poisoned = false := by simpa using hPoisoned
  obtain hOpen | ⟨e, hClosed⟩ := s.failure.eq_none_or_eq_some
  · simp only [hOpen]
    rcases poisoning_compileStore_cases s with ⟨e, hError, hCollect⟩ |
      ⟨store, metric, hStore, hMetric, hCollect⟩
    · rw [hCollect]
      exact .poisoned hLive hError (.inl rfl)
    · rw [hCollect]
      dsimp only
      cases hResult : solveStore b s store metric with
      | error e => exact .failed b e hLive hOpen
      | ok solution =>
        obtain ⟨program, hProgram, hSolve⟩ := solveStore_eq_ok hResult
        have hCompile : Action.compile s = .ok program s :=
          compile_eq_ok_iff.mpr ⟨hLive, rfl, store, metric, hStore, hMetric, hProgram⟩
        exact .solved hLive hOpen (solve_of_compile hOpen hCompile hSolve) hCompile hSolve
  · simp only [hClosed]
    exact .closed b hLive hClosed

theorem ends_perform (call : Call α) (s : Session α) : Ends s call (call.perform s) := by
  cases call with
  | configure change => exact .configured change
  | compile => exact ends_compile s
  | solve b => exact ends_solve b s
  | _ => exact ends_declaring (by trivial) s

end Call

end Endings

section Poisoning

variable [Scalar α]

namespace Session

theorem poisoned_after_iff (s : Session α) (call : Call α) :
    (call.perform.after s).poisoned = true ↔
      s.poisoned = true ∨ ∃ e s', call.perform s = .error e s' ∧ e.isConstructionTime = true := by
  have hEnds := call.ends_perform s
  unfold Action.after
  generalize call.perform s = result at hEnds ⊢
  cases hEnds with
  | configured change => simp [configure]
  | refused hCall hPoisoned => simp [hPoisoned]
  | @poisoned _ e s' hLive hError hStanding =>
    have hPoisoned : s'.poisoned = true := by
      rcases hStanding with h | h
      · exact congrArg Standing.poisoned h
      · exact congrArg Standing.poisoned h
    exact iff_of_true hPoisoned (.inr ⟨e, s', rfl, hError⟩)
  | @declared _ s' hCall hLive hStanding =>
    have hLive' : s'.poisoned = false := (congrArg Standing.poisoned hStanding).trans hLive
    simp [hLive, hLive']
  | compiled hLive => simp [hLive]
  | unassembled hLive e => simp [hLive, SessionError.isConstructionTime]
  | closed b hLive hFailure => simp [hLive, SessionError.isConstructionTime]
  | solved hLive => simp [hLive]
  | failed b e hLive hOpen => simp [hLive, SessionError.isConstructionTime]

theorem live_of_solve_error {s s' : Session α} {call : Call α} {e : SolveError α}
    (h : call.perform s = .error (.solve e) s') : s'.poisoned = false := by
  have hEnds := call.ends_perform s
  rw [h] at hEnds
  cases hEnds with
  | poisoned hLive hError hStanding => cases hError
  | unassembled hLive => exact hLive
  | closed b hLive => exact hLive
  | failed b e hLive => exact hLive

theorem perform_of_poisoned {s : Session α} (h : s.poisoned = true) {call : Call α}
    (hCall : call.Fallible) : call.perform s = .error (.construction .poisoned) s := by
  have hEnds := call.ends_perform s
  generalize call.perform s = result at hEnds ⊢
  cases hEnds with
  | configured change => cases hCall
  | refused => rfl
  | _ => simp_all

theorem poisoned_run {s : Session α} (h : s.poisoned = true) (calls : List (Call α)) :
    (s.run calls).poisoned = true := by
  induction calls generalizing s with
  | nil => exact h
  | cons call calls ih => exact ih ((s.poisoned_after_iff call).mpr (.inl h))

theorem run_of_poisoned {s : Session α} (h : s.poisoned = true) {calls : List (Call α)}
    (hCalls : ∀ call ∈ calls, call.Fallible) : s.run calls = s := by
  induction calls with
  | nil => rfl
  | cons call calls ih =>
    obtain ⟨hCall, hRest⟩ := List.forall_mem_cons.mp hCalls
    have hSame : call.perform.after s = s := by rw [Action.after, perform_of_poisoned h hCall]
    rw [run, List.foldl_cons, hSame]
    exact ih hRest

/-- Poisoning is exact. A call leaves the session poisoned if it was poisoned before or if the call
fails on account of a declaration, and not otherwise; the errors of a solve never poison. From then
on every call that may fail is refused and changes nothing, however the run goes on. -/
theorem poisoning_exact (s : Session α) (call : Call α) :
    ((call.perform.after s).poisoned = true ↔
      s.poisoned = true ∨ ∃ e s', call.perform s = .error e s' ∧ e.isConstructionTime = true) ∧
    (∀ e s', call.perform s = .error (.solve e) s' → s'.poisoned = false) ∧
    (s.poisoned = true → ∀ more : List (Call α),
      (call.Fallible →
        call.perform (s.run more) = .error (.construction .poisoned) (s.run more)) ∧
      ((∀ other ∈ more, other.Fallible) → s.run more = s)) :=
  ⟨s.poisoned_after_iff call, fun _ _ => live_of_solve_error, fun hPoisoned more =>
    ⟨perform_of_poisoned (poisoned_run hPoisoned more), run_of_poisoned hPoisoned⟩⟩

/-- A gradient was asked of a function that was never declared. -/
noncomputable def undeclared : Session ℝ :=
  (new onePoint).run [.newGradient ⟨0⟩]

/-- Such a session is poisoned. One with a constraint that never holds is not, although compiling it
fails. -/
theorem poisoning_exact_undeclared :
    undeclared.poisoned = true ∧
    Call.newValue.perform (undeclared.run [.compile]) =
      .error (.construction .poisoned) (undeclared.run [.compile]) ∧
    undeclared.run [.compile] = undeclared ∧
    ∃ s', Call.compile.perform ((new onePoint).run impossibleCalls) =
      .error (.solve .infeasible) s' ∧ s'.poisoned = false := by
  have hPoisoned : undeclared.poisoned = true := rfl
  obtain ⟨hRefused, hSame⟩ := (poisoning_exact _ .newValue).2.2 hPoisoned [.compile]
  have hInfeasible : Call.compile.perform ((new onePoint).run impossibleCalls) =
      .error (.solve .infeasible) ((new onePoint).run impossibleCalls) := by
    change (discard Action.compile : Action ℝ Unit) _ = _
    rw [Call.discard_eq, compile_impossible]
  exact ⟨hPoisoned, hRefused trivial, hSame (by simp [Call.Fallible]), _, hInfeasible,
    (poisoning_exact _ .compile).2.1 _ _ hInfeasible⟩

end Session

end Poisoning

end PerformanceEstimation
