import Mathlib
import PerformanceEstimation.Proofs.Classes.Conditions
import PerformanceEstimation.Proofs.Program.Layout
import PerformanceEstimation.Proofs.Session.Calls

/-!
# Compiling a session

The rows of a compiled program hold at some numbers exactly when the numbers satisfy what the
session was told: the accepted constraints, and the conditions of the classes on the triples. If a
constant constraint never holds, nothing satisfies them (`compile_faithful`).
-/

set_option autoImplicit false

namespace PerformanceEstimation

namespace Store

variable {α : Type} [Scalar α]

theorem triviallyViolated?_eq_none_iff {s : Store α} : s.triviallyViolated? = none ↔
    ∀ entry ∈ s.entries, entry.constraint.isTriviallyViolated = false := by
  simp only [triviallyViolated?, Option.map_eq_none_iff, List.find?_eq_none, Prod.forall,
    Bool.not_eq_true, mem_items_iff]
  constructor
  · intro h entry hEntry
    obtain ⟨i, hi⟩ := List.mem_iff_getElem?.mp hEntry
    exact h ⟨i⟩ entry hi
  · intro h id entry hEntry
    exact h entry (List.mem_of_getElem? hEntry)

end Store

namespace Program

variable {α : Type} [Scalar α] {store : Store α} {metric : Expression α} {order : ℕ}

theorem assemble_eq_ok_iff {p : Program α} : assemble store metric order = .ok p ↔
    store.triviallyViolated? = none ∧ p = ⟨store, metric, order⟩ := by
  unfold assemble
  split
  · rename_i hSome
    constructor
    · intro h
      cases h
    · rintro ⟨hNone, -⟩
      rw [hNone] at hSome
      cases hSome
  · rename_i hNone
    rw [Bool.not_eq_true, Option.isSome_eq_false_iff, Option.isNone_iff_eq_none] at hNone
    constructor
    · intro h
      cases h
      exact ⟨hNone, rfl⟩
    · rintro ⟨-, rfl⟩
      rfl

section Holding

variable {store : Store ℝ} {metric : Expression ℝ} {order : ℕ} (gram : BasisPair → ℝ)
  (value : ValueIndex → ℝ)

/-- The constraints that an assembled program leaves out of its rows hold anyway. -/
theorem rows_hold_iff_of_assemble {p : Program ℝ} (h : assemble store metric order = .ok p) :
    (∀ row ∈ p.rows, row.2.constraint.HoldsAt gram value) ↔
      ∀ entry ∈ store.entries, entry.constraint.HoldsAt gram value := by
  obtain ⟨hNone, rfl⟩ := assemble_eq_ok_iff.mp h
  rw [forall_rows_iff (P := fun entry => entry.constraint.HoldsAt gram value)]
  constructor
  · intro hRows entry hEntry
    cases hConstant : entry.constraint.lhs.isConstant with
    | true =>
      exact (Constraint.holdsAt_of_isConstant gram value hConstant).mpr
        (Store.triviallyViolated?_eq_none_iff.mp hNone entry hEntry)
    | false => exact hRows entry hEntry hConstant
  · intro hAll entry hEntry _
    exact hAll entry hEntry

theorem not_hold_of_assemble_error {e : SolveError ℝ}
    (h : assemble store metric order = .error e) :
    ¬ ∀ entry ∈ store.entries, entry.constraint.HoldsAt gram value := by
  intro hAll
  unfold assemble at h
  split at h
  · rename_i hSome
    have hNone : store.triviallyViolated? = none := by
      refine Store.triviallyViolated?_eq_none_iff.mpr fun entry hEntry => ?_
      by_contra hViolated
      exact Constraint.not_holdsAt_of_isTriviallyViolated gram value
        (Bool.not_eq_false _ ▸ hViolated) (hAll entry hEntry)
    rw [hNone] at hSome
    cases hSome
  · cases h

end Holding

end Program

namespace Session

variable {α : Type} [Scalar α]

/-- What a session generates is what the classes of its leaf functions generate. -/
theorem mem_interpolations_iff {s : Session α} {entry : StoredConstraint α} :
    entry ∈ s.interpolations ↔ ∃ f cls triples i,
      s.functions[f]? = some (.leaf cls triples) ∧ i ∈ cls.interpolation triples ∧
        entry = ⟨i.constraint, .interpolation ⟨f⟩ i.k i.l⟩ := by
  constructor
  · intro h
    obtain ⟨⟨body, f⟩, hBody, hEntry⟩ := List.mem_flatMap.mp h
    cases body with
    | sum terms => cases hEntry
    | leaf cls triples =>
      obtain ⟨i, hi, rfl⟩ := List.mem_map.mp hEntry
      exact ⟨f, cls, triples, i, List.mk_mem_zipIdx_iff_getElem?.mp hBody, hi, rfl⟩
  · rintro ⟨f, cls, triples, i, hLeaf, hi, rfl⟩
    refine List.mem_flatMap.mpr ⟨(.leaf cls triples, f), ?_, List.mem_map_of_mem hi⟩
    exact List.mk_mem_zipIdx_iff_getElem?.mpr hLeaf

theorem entries_of_compiledStore {s : Session α} {store : Store α}
    (h : s.compiledStore = .ok store) :
    store.entries = s.declared.entries ++ s.interpolations := by
  unfold compiledStore at h
  generalize s.interpolations = constraints at h
  -- every push appends one entry to the store so far
  generalize s.declared = start at h
  induction constraints generalizing start with
  | nil =>
    cases h
    exact (List.append_nil _).symm
  | cons c rest ih =>
    rw [List.foldlM_cons] at h
    cases hPush : start.push c.constraint c.origin with
    | error conflict =>
      rw [hPush] at h
      cases h
    | ok result =>
      rw [hPush] at h
      rw [ih result.2 h, Store.entries_push hPush, List.append_assoc]
      rfl

theorem poisoning_compileStore_eq (s : Session α) : Action.poisoning Action.compileStore s =
    match s.metric with
    | none => .error (.construction .missingMetric) { s with poisoned := true }
    | some metric => match s.compiledStore with
      | .error conflict => .error (.conflict conflict) { s with poisoned := true }
      | .ok store => .ok (store, metric) s := by
  have hStore : Action.compileStore s = match s.metric with
      | none => .error (.construction .missingMetric) s
      | some metric => match s.compiledStore with
        | .error conflict => .error (.conflict conflict) s
        | .ok store => .ok (store, metric) s := by
    simp only [Action.compileStore, Bind.bind, EStateM.bind, get, getThe, MonadStateOf.get,
      EStateM.get]
    cases s.metric with
    | none => rfl
    | some metric => cases s.compiledStore <;> rfl
  rw [Action.poisoning, hStore]
  obtain hMetric | ⟨metric, hMetric⟩ := s.metric.eq_none_or_eq_some
  · simp only [hMetric]
  · simp only [hMetric]
    cases s.compiledStore with
    | error conflict => simp only [hMetric]
    | ok store => rfl

theorem compile_eq (s : Session α) : Action.compile s =
    if s.poisoned then .error (.construction .poisoned) s
    else match s.metric with
      | none => .error (.construction .missingMetric) { s with poisoned := true }
      | some metric => match s.compiledStore with
        | .error conflict => .error (.conflict conflict) { s with poisoned := true }
        | .ok store => match Program.assemble store metric s.basis.size with
          | .error e => .error (.solve e) s
          | .ok program => .ok program s := by
  simp only [Action.compile, Bind.bind, EStateM.bind, Action.live_eq]
  by_cases hPoisoned : s.poisoned = true
  · rw [if_pos hPoisoned, if_pos hPoisoned]
  · rw [if_neg hPoisoned, if_neg hPoisoned]
    dsimp only
    rw [poisoning_compileStore_eq]
    obtain hMetric | ⟨metric, hMetric⟩ := s.metric.eq_none_or_eq_some
    · simp only [hMetric]
    · simp only [hMetric]
      cases s.compiledStore with
      | error conflict => rfl
      | ok store =>
        simp only [get, getThe, MonadStateOf.get, EStateM.get]
        cases Program.assemble store metric s.basis.size <;> rfl

/-- Once the constraints are collected without a conflict, the assembly decides. -/
theorem compile_cases (s : Session α) :
    (∃ e s', Action.compile s = .error e s' ∧ ∀ e', e ≠ .solve e') ∨
      s.poisoned = false ∧ ∃ store metric, s.compiledStore = .ok store ∧ s.metric = some metric ∧
        Action.compile s = match Program.assemble store metric s.basis.size with
          | .error e => .error (.solve e) s
          | .ok program => .ok program s := by
  rw [compile_eq]
  split
  · exact .inl ⟨_, _, rfl, fun _ h => by cases h⟩
  · rename_i hLive
    split
    · exact .inl ⟨_, _, rfl, fun _ h => by cases h⟩
    · rename_i metric hMetric
      split
      · exact .inl ⟨_, _, rfl, fun _ h => by cases h⟩
      · rename_i store hStore
        exact .inr ⟨Bool.not_eq_true _ ▸ hLive, store, metric, hStore, hMetric, rfl⟩

theorem compile_eq_ok_iff {s s' : Session α} {program : Program α} :
    Action.compile s = .ok program s' ↔ s.poisoned = false ∧ s' = s ∧
      ∃ store metric, s.compiledStore = .ok store ∧ s.metric = some metric ∧
        Program.assemble store metric s.basis.size = .ok program := by
  constructor
  · intro h
    rcases compile_cases s with ⟨_, _, hError, -⟩ |
      ⟨hLive, store, metric, hStore, hMetric, hRest⟩
    · cases hError.symm.trans h
    · rw [hRest] at h
      split at h
      · cases h
      · rename_i hAssemble
        cases h
        exact ⟨hLive, rfl, store, metric, hStore, hMetric, hAssemble⟩
  · rintro ⟨hLive, rfl, store, metric, hStore, hMetric, hAssemble⟩
    rw [compile_eq, if_neg (by simp [hLive])]
    simp only [hStore, hMetric, hAssemble]

theorem compile_eq_solveError_iff {s s' : Session α} {e : SolveError α} :
    Action.compile s = .error (.solve e) s' ↔ s.poisoned = false ∧ s' = s ∧
      ∃ store metric, s.compiledStore = .ok store ∧ s.metric = some metric ∧
        Program.assemble store metric s.basis.size = .error e := by
  constructor
  · intro h
    rcases compile_cases s with ⟨_, _, hError, hOther⟩ |
      ⟨hLive, store, metric, hStore, hMetric, hRest⟩
    · cases hError.symm.trans h
      exact (hOther e rfl).elim
    · rw [hRest] at h
      split at h
      · rename_i hAssemble
        cases h
        exact ⟨hLive, rfl, store, metric, hStore, hMetric, hAssemble⟩
      · cases h
  · rintro ⟨hLive, rfl, store, metric, hStore, hMetric, hAssemble⟩
    rw [compile_eq, if_neg (by simp [hLive])]
    simp only [hStore, hMetric, hAssemble]

section Faithful

variable (gram : BasisPair → ℝ) (value : ValueIndex → ℝ)

theorem interpolations_hold_iff (s : Session ℝ) :
    (∀ entry ∈ s.interpolations, entry.constraint.HoldsAt gram value) ↔
      ∀ (f : ℕ) (cls : FunctionClass ℝ) (triples : List (Triple ℝ)), s.functions[f]? =
        some (.leaf cls triples) → cls.HoldsOn gram value triples := by
  constructor
  · intro h f cls triples hLeaf
    rw [← cls.interpolation_hold_iff]
    intro i hi
    exact h _ (mem_interpolations_iff.mpr ⟨f, cls, triples, i, hLeaf, hi, rfl⟩)
  · intro h entry hEntry
    obtain ⟨f, cls, triples, i, hLeaf, hi, rfl⟩ := mem_interpolations_iff.mp hEntry
    exact (cls.interpolation_hold_iff gram value triples).mpr (h f cls triples hLeaf) i hi

/-- The numbers satisfy what a run of calls stated: the constraints that were accepted, and the
condition of every class on the triples of its function. -/
structure Satisfied (gram : BasisPair → ℝ) (value : ValueIndex → ℝ) (start : Session ℝ)
    (calls : List (Call ℝ)) : Prop where
  accepted : ∀ c ∈ start.accepted calls, c.HoldsAt gram value
  classes : ∀ (f : ℕ) (cls : FunctionClass ℝ) (triples : List (Triple ℝ)),
    (start.run calls).functions[f]? = some (.leaf cls triples) → cls.HoldsOn gram value triples

theorem compiledStore_hold_iff (par : Parameters ℝ) (calls : List (Call ℝ)) {store : Store ℝ}
    (h : ((new par).run calls).compiledStore = .ok store) :
    (∀ entry ∈ store.entries, entry.constraint.HoldsAt gram value) ↔
      Satisfied gram value (new par) calls := by
  have hDeclared : (∀ entry ∈ ((new par).run calls).declared.entries,
      entry.constraint.HoldsAt gram value) ↔
        ∀ c ∈ (new par).accepted calls, c.HoldsAt gram value := by
    have hRun := declared_run calls (new par)
    rw [show (new par).declared.entries.map (·.constraint) = [] from rfl, List.nil_append] at hRun
    rw [← hRun, List.forall_mem_map]
  rw [entries_of_compiledStore h, List.forall_mem_append, hDeclared, interpolations_hold_iff]
  exact ⟨fun ⟨hAccepted, hClasses⟩ => ⟨hAccepted, hClasses⟩, fun h => ⟨h.accepted, h.classes⟩⟩

/-- Compiling is faithful, whatever the run of calls that led to the session. The rows of the
program hold at the same numbers, be they those of a positive semidefinite matrix or not, as what
the run stated; and where compiling finds the program infeasible, that holds at no numbers. -/
theorem compile_faithful (par : Parameters ℝ) (calls : List (Call ℝ)) :
    (∀ program s', Action.compile ((new par).run calls) = .ok program s' →
      program.order = ((new par).run calls).basis.size ∧
      ((new par).run calls).metric = some program.metric ∧
      ∀ gram value, (∀ row ∈ program.rows, row.2.constraint.HoldsAt gram value) ↔
        Satisfied gram value (new par) calls) ∧
    ∀ s', Action.compile ((new par).run calls) = .error (.solve .infeasible) s' →
      ∀ gram value, ¬ Satisfied gram value (new par) calls := by
  constructor
  · intro program s' hCompile
    obtain ⟨-, -, store, metric, hStore, hMetric, hAssemble⟩ := compile_eq_ok_iff.mp hCompile
    obtain ⟨-, rfl⟩ := Program.assemble_eq_ok_iff.mp hAssemble
    refine ⟨rfl, hMetric, fun gram value => ?_⟩
    rw [← compiledStore_hold_iff gram value par calls hStore]
    exact Program.rows_hold_iff_of_assemble gram value hAssemble
  · intro s' hCompile gram value hSatisfied
    obtain ⟨-, -, store, metric, hStore, -, hAssemble⟩ := compile_eq_solveError_iff.mp hCompile
    exact Program.not_hold_of_assemble_error gram value hAssemble
      ((compiledStore_hold_iff gram value par calls hStore).mpr hSatisfied)

end Faithful

section Example

noncomputable def onePoint : Parameters ℝ where
  maxIterations := none
  accuracy := 0
  infeasibility := 0
  zero := 0
  reportPeriod := 1
  maxBasis := 1
  warnAbove := 0
  failAbove := 0
  certificate := false

/-- A point of norm at most one, a convex function that is known twice at the origin, and a
constraint on a constant. -/
noncomputable def coincidingCalls : List (Call ℝ) :=
  [.initialPoint, .declareFunction .convex, .addPoint ⟨0⟩ 0 0 0, .addPoint ⟨0⟩ 0 0 0,
    .initialCondition ⟨⟨[], [(⟨⟨0⟩, ⟨0⟩⟩, 1)], -1⟩, .lessEq⟩,
    .functionConstraint ⟨0⟩ ⟨.const (-1), .lessEq⟩, .setMetric ⟨[], [(⟨⟨0⟩, ⟨0⟩⟩, 1)], 0⟩]

noncomputable def coinciding : Session ℝ where
  parameters := onePoint
  basis := ⟨1, [.initialPoint]⟩
  valueCount := 0
  functions := [.leaf .convex [⟨0, 0, 0⟩, ⟨0, 0, 0⟩]]
  declared := ⟨[⟨⟨⟨[], [(⟨⟨0⟩, ⟨0⟩⟩, 1)], -1⟩, .lessEq⟩, .initialCondition⟩,
    ⟨⟨.const (-1), .lessEq⟩, .function ⟨0⟩⟩]⟩
  metric := some ⟨[], [(⟨⟨0⟩, ⟨0⟩⟩, 1)], 0⟩
  status := .unsolved
  failure := none
  poisoned := false

theorem run_coincidingCalls : (new onePoint).run coincidingCalls = coinciding := by
  have hPoint : Call.initialPoint.perform.after (new onePoint) =
      { new onePoint with basis := coinciding.basis } := rfl
  have hLeaf : (Call.declareFunction .convex).perform.after
      { new onePoint with basis := coinciding.basis } =
      { coinciding with functions := [.leaf .convex []], declared := ∅, metric := none } := rfl
  have hFirst : (Call.addPoint ⟨0⟩ 0 0 0).perform.after
      { coinciding with functions := [.leaf .convex []], declared := ∅, metric := none } =
      { coinciding with
        functions := [.leaf .convex [⟨0, 0, 0⟩]], declared := ∅, metric := none } := rfl
  have hSecond : (Call.addPoint ⟨0⟩ 0 0 0).perform.after
      { coinciding with
        functions := [.leaf .convex [⟨0, 0, 0⟩]], declared := ∅, metric := none } =
      { coinciding with declared := ∅, metric := none } := rfl
  rw [run, coincidingCalls, List.foldl_cons, hPoint, List.foldl_cons, hLeaf, List.foldl_cons,
    hFirst, List.foldl_cons, hSecond]
  rfl

theorem interpolations_coinciding : coinciding.interpolations = [] := by
  have hConstant :
      (FunctionClass.convexRule (⟨0, 0, 0⟩ : Triple ℝ) ⟨0, 0, 0⟩).lhs.isConstant = true := rfl
  have hTrivial :
      (FunctionClass.convexRule (⟨0, 0, 0⟩ : Triple ℝ) ⟨0, 0, 0⟩).isTriviallySatisfied = true := by
    rw [Constraint.isTriviallySatisfied, hConstant]
    simp [Constraint.violation, FunctionClass.convexRule, FunctionClass.convexityGap, Expression.le]
  simp [interpolations, coinciding, FunctionClass.interpolation, Interpolation.orderedPairs,
    Interpolation.nontrivial?, hTrivial]

theorem compile_coinciding : Action.compile coinciding =
    .ok ⟨coinciding.declared, ⟨[], [(⟨⟨0⟩, ⟨0⟩⟩, 1)], 0⟩, 1⟩ coinciding := by
  have hStore : coinciding.compiledStore = .ok coinciding.declared := by
    rw [compiledStore, interpolations_coinciding]
    rfl
  refine compile_eq_ok_iff.mpr ⟨rfl, rfl, coinciding.declared, _, hStore, rfl, ?_⟩
  refine Program.assemble_eq_ok_iff.mpr ⟨Store.triviallyViolated?_eq_none_iff.mpr ?_, rfl⟩
  simp [coinciding, Constraint.isTriviallyViolated, Constraint.violation, Expression.isConstant,
    Expression.const]

noncomputable def impossibleCalls : List (Call ℝ) :=
  [.initialCondition ⟨.const 1, .lessEq⟩, .setMetric 0]

theorem compile_impossible : Action.compile ((new onePoint).run impossibleCalls) =
    .error (.solve .infeasible) ((new onePoint).run impossibleCalls) := by
  refine compile_eq_solveError_iff.mpr ⟨rfl, rfl, ⟨[⟨⟨.const 1, .lessEq⟩, .initialCondition⟩]⟩,
    0, rfl, rfl, ?_⟩
  rw [Program.assemble, if_pos]
  rw [Option.isSome_iff_ne_none, ne_eq, Store.triviallyViolated?_eq_none_iff]
  simp [Constraint.isTriviallyViolated, Constraint.violation, Expression.isConstant,
    Expression.const]

theorem compile_faithful_coinciding :
    (∃ program s', Action.compile ((new onePoint).run coincidingCalls) = .ok program s' ∧
      ∀ gram value, Satisfied gram value (new onePoint) coincidingCalls ↔
        gram ⟨⟨0⟩, ⟨0⟩⟩ ≤ 1) ∧
    Action.compile ((new onePoint).run impossibleCalls) =
      .error (.solve .infeasible) ((new onePoint).run impossibleCalls) ∧
    ∀ gram value, ¬ Satisfied gram value (new onePoint) impossibleCalls := by
  have hCompile : Action.compile ((new onePoint).run coincidingCalls) = _ :=
    run_coincidingCalls ▸ compile_coinciding
  refine ⟨⟨_, _, hCompile, fun gram value => ?_⟩, compile_impossible,
    (compile_faithful onePoint impossibleCalls).2 _ compile_impossible⟩
  obtain ⟨-, -, hFaithful⟩ := (compile_faithful onePoint coincidingCalls).1 _ _ hCompile
  rw [← hFaithful, Program.forall_rows_iff (P := fun entry => entry.constraint.HoldsAt gram value)]
  simp [run_coincidingCalls, coinciding, Constraint.HoldsAt, Expression.isConstant,
    Expression.const, Expression.evalAt]

end Example

end Session

end PerformanceEstimation
