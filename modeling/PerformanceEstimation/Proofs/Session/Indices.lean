import Mathlib
import PerformanceEstimation.Proofs.Program.Assembly
import PerformanceEstimation.Proofs.Session.Extension

/-!
# Indices of compiled programs

Nothing that a program writes or reads has an index outside its table, provided that its expressions
use Gram entries of its matrix only (`Program.Inside.indexSafe`). The programs of a session do, for
the rules of the classes name no other unknowns than their two triples (`indexSafe_of_compile`).
-/

set_option autoImplicit false

namespace PerformanceEstimation

open Scalar

variable {α : Type} [Scalar α]

namespace Program

variable {p : Program α}

/-- The dimensions of a conic program are those of the program, with the given number of rows, and
leave room for its equalities and its packed matrix. -/
structure Fits (p : Program α) (height : ℕ) (c : ConicProgram α) : Prop where
  height : c.m = height
  width : c.n = p.width
  equalities : c.equalities = p.equalityCount
  equalities_le : c.equalities ≤ c.m
  packed : c.packed = p.packed
  packed_le : c.packed ≤ c.n

def Inside (p : Program α) : Prop :=
  ∀ e ∈ p.expressions, e.GramBelow p.order

theorem exists_fits {rows : List (Row α)}
    (hCost : ∀ column ∈ p.columns p.metric, column.1 < p.width)
    (hRows : ∀ row ∈ rows, ∀ column ∈ row.columns, column.1 < p.width)
    (hCount : p.equalityCount ≤ rows.length) :
    ∃ c, p.lowerRows? rows = some c ∧ p.Fits rows.length c := by
  unfold lowerRows?
  rw [dif_pos ⟨by simpa using hCost, by simpa using hRows, hCount⟩]
  exact ⟨_, rfl, rfl, rfl, rfl, hCount, rfl, p.packed_le_width⟩

theorem Inside.columns_lt (h : p.Inside) {e : Expression α} (he : e ∈ p.expressions) :
    ∀ column ∈ p.columns e, column.1 < p.width :=
  Program.columns_lt (h e he) (covers_of_mem_expressions he)

theorem Inside.constraintRows (h : p.Inside) :
    ∀ row ∈ p.constraintRows, ∀ column ∈ row.columns, column.1 < p.width :=
  constraintRows_inside fun _ hRow => h _ (lhs_mem_expressions hRow)

theorem length_normalizingRows (p : Program α) :
    p.normalizingRows.length = 1 + 2 * p.values.length := by
  simp [normalizingRows, List.length_flatMap, mul_comm, add_comm]

theorem Inside.exists_lower? (h : p.Inside) :
    ∃ c, p.lower? = some c ∧ p.Fits p.rows.length c := by
  rw [← p.length_constraintRows]
  exact exists_fits (h.columns_lt p.metric_mem_expressions) h.constraintRows p.equalityCount_le

theorem Inside.exists_lowerNormalized? (h : p.Inside) :
    ∃ c, p.lowerNormalized? = some c ∧
      p.Fits (p.rows.length + (1 + 2 * p.values.length)) c := by
  rw [← p.length_constraintRows, ← p.length_normalizingRows, ← List.length_append]
  refine exists_fits (h.columns_lt p.metric_mem_expressions) ?_ ?_
  · exact List.forall_mem_append.mpr ⟨h.constraintRows, normalizingRows_inside⟩
  · exact p.equalityCount_le.trans (by simp)

theorem Inside.rows_eq_nil (h : p.Inside) (hWidth : p.width = 0) : p.rows = [] := by
  rw [List.eq_nil_iff_forall_not_mem]
  intro row hRow
  -- a row has an unknown, and each unknown has a column
  have hColumns : p.columns row.2.constraint.lhs = [] := by
    rw [List.eq_nil_iff_forall_not_mem]
    intro column hColumn
    have hLess := h.columns_lt (lhs_mem_expressions hRow) column hColumn
    omega
  obtain ⟨-, hUnknown⟩ := mem_rows_iff.mp hRow
  rw [columns_eq (covers_row hRow), List.append_eq_nil_iff, List.map_eq_nil_iff,
    List.map_eq_nil_iff] at hColumns
  rw [Expression.isConstant, hColumns.1, hColumns.2] at hUnknown
  cases hUnknown

end Program

/-- What a solution holds has the lengths that its program expects, and every index with which the
program reads it lies inside. -/
structure Solution.InRange (s : Solution α) (p : Program α) : Prop where
  order : s.order = p.order
  gram : s.gram.length = p.packed
  values : s.values.map (·.1) = p.values
  psd : s.psd.length = p.packed
  multipliers : s.multipliers.length = p.store.size
  multiplier : ∀ id ∈ p.rowIds, id.pos < s.multipliers.length
  gramEntry : ∀ e ∈ p.expressions, ∀ term ∈ e.gram, term.1.slot < s.gram.length
  valueOf : ∀ e ∈ p.expressions, ∀ term ∈ e.values, ∃ a, s.values.lookup term.1 = some a
  entries : (Certificate.extract p s.multipliers s.psd).entries.map (·.id) = p.rowIds
  verify (minEigenvalue : List α → Option α) :
    ∃ check, (Certificate.extract p s.multipliers s.psd).verify? minEigenvalue = some check

namespace Program

variable {p : Program α} {x y : List α}

theorem Inside.inRange (h : p.Inside) (hx : x.length = p.width) {d : Duals α}
    (hd : p.dualsOf? y = some d) (hAttributes : d.Attributes p y) (worstCase : α) :
    { p.solutionAt x d with worstCase := worstCase }.InRange p where
  order := rfl
  gram := length_gram_solutionAt hx d
  values := List.map_fst_zip (length_drop_packed hx).ge
  psd := hAttributes.psd
  multipliers := hAttributes.length
  multiplier id hId := by
    obtain ⟨row, hRow, rfl⟩ := List.mem_map.mp hId
    have hEntry := Store.mem_items_iff.mp (mem_rows_iff.mp hRow).1
    exact hAttributes.length ▸ (List.getElem?_eq_some_iff.mp hEntry).1
  gramEntry e he term hTerm := by
    have hSlot : term.1.slot < p.packed := slot_lt_packed (h e he) hTerm
    exact hSlot.trans_eq (length_gram_solutionAt hx d).symm
  valueOf e he term hTerm := by
    have hMem : term.1 ∈ p.values := covers_of_mem_expressions he term hTerm
    have hSlot : p.values.idxOf term.1 < (x.drop p.packed).length :=
      (List.idxOf_lt_length_of_mem hMem).trans_eq (length_drop_packed hx).symm
    exact ⟨_, (lookup_zip hMem).trans (List.getElem?_eq_getElem hSlot)⟩
  entries := map_id_extract hd _
  verify minEigenvalue := ⟨_, if_pos hAttributes.psd.le⟩

/-- Every index that the program uses lies inside its table. -/
structure IndexSafe (p : Program α) : Prop where
  lower : ∃ c, p.lower? = some c ∧ p.Fits p.rows.length c
  lowerNormalized : ∃ c, p.lowerNormalized? = some c ∧
    p.Fits (p.rows.length + (1 + 2 * p.values.length)) c
  rows_eq_nil (hWidth : p.width = 0) : p.rows = []
  columns : ∀ e ∈ p.expressions, ∀ column ∈ p.columns e, column.1 < p.width
  gram : ∀ e ∈ p.expressions, ∀ term ∈ e.gram, term.1.slot < p.packed
  values : ∀ e ∈ p.expressions, ∀ term ∈ e.values, ∃ slot,
    p.valueSlot? term.1 = some slot ∧ slot < p.values.length
  read (x y : List α) (hx : x.length = p.width) (hy : y.length = p.rows.length + p.packed) :
    ∃ gram values d s, p.gramOf? x = some gram ∧ p.valuesOf? x = some values ∧
      p.dualsOf? y = some d ∧ p.read? x y = some s ∧ s.InRange p
  solve (b : Backend α) (par : Parameters α)
    (hLengths : ∀ c x y, b.solve par c = .ok (x, y) →
      x.length = c.n ∧ y.length = c.m + c.packed) :
    ∃ outcome, p.solve? b par = some outcome

theorem Inside.exists_read? (h : p.Inside) (hx : x.length = p.width)
    (hy : y.length = p.rows.length + p.packed) :
    ∃ gram values d s, p.gramOf? x = some gram ∧ p.valuesOf? x = some values ∧
      p.dualsOf? y = some d ∧ p.read? x y = some s ∧ s.InRange p := by
  obtain ⟨d, hd, hAttributes⟩ := exists_dualsOf? hy.ge
  exact ⟨_, _, d, _, gramOf?_eq hx, valuesOf?_eq hx, hd, read?_eq hx hd,
    h.inRange hx hd hAttributes _⟩

theorem Inside.exists_answer? (h : p.Inside) {b : Backend α} {par : Parameters α}
    (hLengths : ∀ c x y, b.solve par c = .ok (x, y) →
      x.length = c.n ∧ y.length = c.m + c.packed) :
    ∃ answer, p.answer? b par = some answer ∧ ∀ x y, answer = .ok (x, y) →
      x.length = p.width ∧ y.length = p.rows.length + p.packed := by
  unfold answer?
  by_cases hWidth : p.width = 0
  · rw [if_pos hWidth]
    refine ⟨_, rfl, ?_⟩
    rintro x y ⟨⟩
    have hPacked : p.packed = 0 := Nat.le_zero.mp (hWidth ▸ p.packed_le_width)
    exact ⟨hWidth.symm, by rw [h.rows_eq_nil hWidth, hPacked]; rfl⟩
  · obtain ⟨c, hLower, hFits⟩ := h.exists_lower?
    rw [if_neg hWidth, hLower]
    refine ⟨_, rfl, fun x y hAnswer => ?_⟩
    dsimp only at hAnswer
    cases hSolve : b.solve par c with
    | error fault =>
      rw [hSolve] at hAnswer
      cases hAnswer
    | ok answer =>
      rw [hSolve] at hAnswer
      cases hAnswer
      rw [← hFits.width, ← hFits.height, ← hFits.packed]
      exact hLengths c x y hSolve

theorem Inside.exists_rayCheck? (h : p.Inside) (b : Backend α) (par : Parameters α) :
    ∃ outcome, p.rayCheck? b par = some outcome := by
  obtain ⟨c, hLower, -⟩ := h.exists_lowerNormalized?
  unfold rayCheck?
  split
  · exact ⟨_, by rw [growsAlongRay?, hLower]; rfl⟩
  · exact ⟨_, rfl⟩

theorem Inside.exists_solve? (h : p.Inside) {b : Backend α} {par : Parameters α}
    (hLengths : ∀ c x y, b.solve par c = .ok (x, y) →
      x.length = c.n ∧ y.length = c.m + c.packed) :
    ∃ outcome, p.solve? b par = some outcome := by
  obtain ⟨ray, hRay⟩ := h.exists_rayCheck? b par
  obtain ⟨answer, hAnswer, hLength⟩ := h.exists_answer? hLengths
  cases ray with
  | error e => exact ⟨.error e, by rw [solve?, hRay]; rfl⟩
  | ok _ =>
    cases answer with
    | error e =>
      refine ⟨.error e, ?_⟩
      rw [solve?, hRay, Option.bind_eq_bind, Option.bind_some, hAnswer]
      rfl
    | ok answer =>
      obtain ⟨hx, hy⟩ := hLength _ _ rfl
      obtain ⟨-, -, -, s, -, -, -, hRead, -⟩ := h.exists_read? hx hy
      exact ⟨_, solve?_of_read hRay hAnswer hRead⟩

theorem Inside.indexSafe (h : p.Inside) : p.IndexSafe where
  lower := h.exists_lower?
  lowerNormalized := h.exists_lowerNormalized?
  rows_eq_nil := h.rows_eq_nil
  columns _ he := h.columns_lt he
  gram e he _ hTerm := slot_lt_packed (h e he) hTerm
  values _ he _ hTerm := by
    obtain ⟨slot, hSlot, hLess, -⟩ := exists_valueSlot? he hTerm
    exact ⟨slot, hSlot, hLess⟩
  read _ _ hx hy := h.exists_read? hx hy
  solve _ _ hLengths := h.exists_solve? hLengths

end Program

namespace Session

/-- A rule which combines only what its two triples are made of names no other unknowns. -/
def RulesLocal (s : Session α) : Prop :=
  ∀ (f : ℕ) (name : String) (singleValued : Bool) (rule : Triple α → Triple α → Constraint α)
    (triples : List (Triple α)),
    s.functions[f]? = some (.leaf (.custom name singleValued rule) triples) →
    ∀ (n k : ℕ) (tk tl : Triple α), tk.Below n k → tl.Below n k → (rule tk tl).lhs.Below n k

theorem RulesLocal.rulesInside {s : Session α} (h : s.RulesLocal) (hs : s.WellFormed) :
    s.RulesInside := by
  intro f name singleValued rule triples hLeaf tk hk tl hl
  have hTriples := hs.triples hLeaf
  exact (h f name singleValued rule triples hLeaf _ _ tk tl (hTriples tk hk)
    (hTriples tl hl)).gramBelow

/-- The program of a session never uses an index outside its tables. -/
theorem indexSafe_of_compile (par : Parameters α) (calls : List (Call α))
    (hRules : ((new par).run calls).RulesLocal) {p : Program α} {t : Session α}
    (hCompile : Action.compile ((new par).run calls) = .ok p t) : p.IndexSafe := by
  have hWell : ((new par).run calls).WellFormed := (wellFormed_new par).run calls
  have hCompiled := gramBelow_compiled hWell (hRules.rulesInside hWell)
  obtain ⟨-, -, store, metric, hStore, hMetric, hAssemble⟩ := compile_eq_ok_iff.mp hCompile
  obtain ⟨-, rfl⟩ := Program.assemble_eq_ok_iff.mp hAssemble
  refine Program.Inside.indexSafe fun e he => ?_
  obtain rfl | ⟨row, hRow, rfl⟩ := Program.mem_expressions_iff.mp he
  · exact (hWell.metric hMetric).gramBelow
  · have hEntry := Program.entry_mem_of_mem_rows hRow
    rw [entries_of_compiledStore hStore] at hEntry
    exact hCompiled row.2 hEntry

section Example

/-- A class whose constraints take the function values of one triple and the Gram entries of the
other. -/
noncomputable def crossing : FunctionClass ℝ :=
  .custom "crossing" false fun tk tl => ⟨⟨tk.value.values, tl.value.gram, -1⟩, .lessEq⟩

noncomputable def crossingCalls : List (Call ℝ) :=
  [.initialPoint, .declareFunction crossing, .newValue, .newValue,
    .addPoint ⟨0⟩ 0 0 ⟨[(⟨0⟩, 1)], [(⟨⟨0⟩, ⟨0⟩⟩, 1)], 0⟩, .addPoint ⟨0⟩ 0 0 ⟨[(⟨1⟩, 1)], [], 0⟩,
    .setMetric ⟨[(⟨1⟩, 1)], [(⟨⟨0⟩, ⟨0⟩⟩, 1)], 0⟩]

noncomputable def crossed : Session ℝ where
  parameters := onePoint
  basis := ⟨1, [.initialPoint]⟩
  valueCount := 2
  functions := [.leaf crossing [⟨0, 0, ⟨[(⟨0⟩, 1)], [(⟨⟨0⟩, ⟨0⟩⟩, 1)], 0⟩⟩,
    ⟨0, 0, ⟨[(⟨1⟩, 1)], [], 0⟩⟩]]
  declared := ∅
  metric := some ⟨[(⟨1⟩, 1)], [(⟨⟨0⟩, ⟨0⟩⟩, 1)], 0⟩
  status := .unsolved
  failure := none
  poisoned := false

noncomputable def crossedProgram : Program ℝ where
  store := ⟨[⟨⟨⟨[(⟨0⟩, 1)], [], -1⟩, .lessEq⟩, .interpolation ⟨0⟩ 0 1⟩,
    ⟨⟨⟨[(⟨1⟩, 1)], [(⟨⟨0⟩, ⟨0⟩⟩, 1)], -1⟩, .lessEq⟩, .interpolation ⟨0⟩ 1 0⟩]⟩
  metric := ⟨[(⟨1⟩, 1)], [(⟨⟨0⟩, ⟨0⟩⟩, 1)], 0⟩
  order := 1

theorem run_crossingCalls : (new onePoint).run crossingCalls = crossed := by
  rfl

theorem compile_crossed : Action.compile crossed = .ok crossedProgram crossed := by
  refine compile_eq_ok_iff.mpr ⟨rfl, rfl, crossedProgram.store, _, rfl, rfl, ?_⟩
  refine Program.assemble_eq_ok_iff.mpr ⟨Store.triviallyViolated?_eq_none_iff.mpr ?_, rfl⟩
  simp [crossedProgram, Constraint.isTriviallyViolated, Expression.isConstant]

theorem rulesLocal_crossed : crossed.RulesLocal := by
  rintro (_ | f) name singleValued rule triples hLeaf
  · cases hLeaf
    intro n k tk tl hk hl
    exact ⟨hl.value.gram, hk.value.values⟩
  · cases hLeaf

/-- A solver that answers every program with zeros. -/
noncomputable def zeroAnswers : Backend ℝ where
  minEigenvalue _ := none
  squareRoot packed := packed
  solve _ c := .ok (List.replicate c.n 0, List.replicate (c.m + c.packed) 0)

theorem indexSafe_of_compile_crossed :
    crossed.RulesLocal ∧
    Action.compile ((new onePoint).run crossingCalls) = .ok crossedProgram crossed ∧
    (∃ c, crossedProgram.lower? = some c ∧ c.n = 3) ∧
    (∃ s, crossedProgram.read? [1, 0, 0] [0, 1, 0] = some s ∧ s.InRange crossedProgram) ∧
    ∃ outcome, crossedProgram.solve? zeroAnswers onePoint = some outcome := by
  have hCompile : Action.compile ((new onePoint).run crossingCalls) = _ :=
    run_crossingCalls ▸ compile_crossed
  have hRules : ((new onePoint).run crossingCalls).RulesLocal := by
    rw [run_crossingCalls]
    exact rulesLocal_crossed
  have hSafe := indexSafe_of_compile onePoint crossingCalls hRules hCompile
  obtain ⟨c, hLower, hFits⟩ := hSafe.lower
  obtain ⟨-, -, -, s, -, -, -, hRead, hRange⟩ := hSafe.read [1, 0, 0] [0, 1, 0] rfl rfl
  refine ⟨rulesLocal_crossed, hCompile, ⟨c, hLower, hFits.width⟩, ⟨s, hRead, hRange⟩, ?_⟩
  refine hSafe.solve zeroAnswers onePoint fun c x y hAnswer => ?_
  cases hAnswer
  exact ⟨List.length_replicate, List.length_replicate⟩

end Example

end Session

end PerformanceEstimation
