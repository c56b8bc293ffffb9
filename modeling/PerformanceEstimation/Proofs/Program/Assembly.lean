import Mathlib
import PerformanceEstimation.Proofs.Program.Multipliers
import PerformanceEstimation.Proofs.Session.Compilation

/-!
# Assembled programs

A store without a constraint that never holds is assembled to a program whose rows are the
constraints on unknowns, equalities first and each sense in store order, and whose value columns are
the function values that occur, ascending. The columns of the metric and of the rows are distinct,
so that no entry of a matrix is written twice, and a dual vector finds the constraint of each of its
entries (`assemble_laidOut`).
-/

set_option autoImplicit false

namespace PerformanceEstimation

open Scalar

variable {α : Type}

namespace Store

theorem items_ascending (s : Store α) : s.items.Pairwise (·.1.pos < ·.1.pos) := by
  rw [items, List.pairwise_map]
  have hPositions : (s.entries.zipIdx.map (·.2)).Pairwise (· < ·) := by
    rw [List.zipIdx_map_snd]
    exact List.pairwise_lt_range'
  exact List.pairwise_map.mp hPositions

theorem length_active (s : Store α) (sense : Sense) :
    (s.active sense).length = s.entries.countP (·.constraint.isActive sense) := by
  have hEntries : s.entries = s.items.map (·.2) := by
    rw [items, List.map_map]
    exact (List.zipIdx_map_fst 0 s.entries).symm
  rw [active, ← List.countP_eq_length_filter, hEntries, List.countP_map]
  rfl

end Store

namespace Program

variable {p : Program α}

/-- Equalities come before inequalities, and constraints of one sense in store order. -/
def RowBefore (row other : ConstraintId × StoredConstraint α) : Prop :=
  if row.2.constraint.sense = other.2.constraint.sense then row.1.pos < other.1.pos
  else row.2.constraint.sense = .equal

theorem rows_ordered (p : Program α) : p.rows.Pairwise RowBefore := by
  have hActive (sense : Sense) : (p.store.active sense).Pairwise RowBefore := by
    refine (p.store.items_ascending.sublist List.filter_sublist).imp_of_mem ?_
    intro row other hRow hOther hBefore
    rw [RowBefore, if_pos]
    · exact hBefore
    · exact (Store.mem_active_iff.mp hRow).2.1.trans (Store.mem_active_iff.mp hOther).2.1.symm
  refine List.pairwise_append.mpr ⟨hActive .equal, hActive .lessEq, ?_⟩
  intro row hRow other hOther
  obtain ⟨-, hSense, -⟩ := Store.mem_active_iff.mp hRow
  obtain ⟨-, hSense', -⟩ := Store.mem_active_iff.mp hOther
  rw [RowBefore, hSense, hSense', if_neg (by decide)]

theorem valueSlot?_eq_some_iff {k : ValueIndex} {slot : ℕ} :
    p.valueSlot? k = some slot ↔ p.values[slot]? = some k :=
  idxOf?_eq_some_iff_of_nodup p.values_nodup

def expressions (p : Program α) : List (Expression α) :=
  p.metric :: p.rows.map (·.2.constraint.lhs)

theorem mem_expressions_iff {e : Expression α} :
    e ∈ p.expressions ↔ e = p.metric ∨ ∃ row ∈ p.rows, row.2.constraint.lhs = e := by
  rw [expressions, List.mem_cons, List.mem_map]

theorem metric_mem_expressions (p : Program α) : p.metric ∈ p.expressions :=
  List.mem_cons_self

theorem lhs_mem_expressions {row : ConstraintId × StoredConstraint α} (h : row ∈ p.rows) :
    row.2.constraint.lhs ∈ p.expressions :=
  mem_expressions_iff.mpr (.inr ⟨row, h, rfl⟩)

theorem covers_of_mem_expressions {e : Expression α} (h : e ∈ p.expressions) : p.Covers e := by
  obtain rfl | ⟨row, hRow, rfl⟩ := mem_expressions_iff.mp h
  · exact p.covers_metric
  · exact covers_row hRow

theorem exists_valueSlot? {e : Expression α} (h : e ∈ p.expressions) {term : ValueIndex × α}
    (hTerm : term ∈ e.values) :
    ∃ slot, p.valueSlot? term.1 = some slot ∧ slot < p.values.length ∧
      p.valueColumn term.1 = p.packed + slot := by
  have hMem : term.1 ∈ p.values := covers_of_mem_expressions h term hTerm
  refine ⟨p.values.idxOf term.1, ?_, List.idxOf_lt_length_of_mem hMem, rfl⟩
  rw [valueSlot?_eq_some_iff]
  exact List.getElem?_idxOf hMem

theorem exists_term_iff {κ : Type} {t : List (κ × α)} {k : κ} :
    (∃ term ∈ t, term.1 = k) ↔ ∃ a, (k, a) ∈ t := by
  constructor
  · rintro ⟨⟨_, a⟩, hTerm, rfl⟩
    exact ⟨a, hTerm⟩
  · rintro ⟨a, hTerm⟩
    exact ⟨(k, a), hTerm, rfl⟩

theorem mem_values_iff_exists_entry {k : ValueIndex} :
    k ∈ p.values ↔ (∃ a, (k, a) ∈ p.metric.values) ∨
      ∃ entry ∈ p.store.entries, entry.constraint.lhs.isConstant = false ∧
        ∃ a, (k, a) ∈ entry.constraint.lhs.values := by
  simp only [mem_values_iff, exists_term_iff]
  refine or_congr_right ⟨?_, ?_⟩
  · rintro ⟨row, hRow, hTerm⟩
    exact ⟨row.2, entry_mem_of_mem_rows hRow, (mem_rows_iff.mp hRow).2, hTerm⟩
  · rintro ⟨entry, hEntry, hUnknown, hTerm⟩
    obtain ⟨i, hi⟩ := List.mem_iff_getElem?.mp hEntry
    exact ⟨(⟨i⟩, entry), mem_rows_iff.mpr ⟨Store.mem_items_iff.mpr hi, hUnknown⟩, hTerm⟩

variable [Scalar α]

/-- Every term of the expression has a column, and there are no other columns. -/
structure Places (p : Program α) (e : Expression α) : Prop where
  length : (p.columns e).length = e.gram.length + e.values.length
  gram : ∀ term ∈ e.gram, (term.1.slot, scaledCoefficient term.1 term.2) ∈ p.columns e
  values : ∀ term ∈ e.values, ∃ slot, p.valueSlot? term.1 = some slot ∧
    (p.packed + slot, term.2) ∈ p.columns e

theorem places_of_mem_expressions {e : Expression α} (h : e ∈ p.expressions) : p.Places e := by
  have hColumns := columns_eq (covers_of_mem_expressions h)
  constructor
  · rw [hColumns, List.length_append, List.length_map, List.length_map]
  · intro term hTerm
    rw [hColumns]
    exact List.mem_append_left _ (List.mem_map_of_mem hTerm)
  · intro term hTerm
    obtain ⟨slot, hSlot, -, hColumn⟩ := exists_valueSlot? h hTerm
    refine ⟨slot, hSlot, ?_⟩
    rw [hColumns, ← hColumn]
    exact List.mem_append_right _ (List.mem_map_of_mem hTerm)

/-- The multipliers are the entries of a dual vector, under the identifiers of the rows. -/
structure Duals.Attributes (d : Duals α) (p : Program α) (y : List α) : Prop where
  length : d.multipliers.length = p.store.size
  psd : d.psd.length = p.packed
  row (r : ℕ) (row : ConstraintId × StoredConstraint α) (h : p.rows[r]? = some row) :
    d.multipliers[row.1.pos]? = y[r]?
  constant (id : ConstraintId) (entry : StoredConstraint α) (h : p.store.get? id = some entry)
    (hConstant : entry.constraint.lhs.isConstant = true) : d.multipliers[id.pos]? = some 0

theorem exists_dualsOf? {y : List α} (hy : p.rows.length + p.packed ≤ y.length) :
    ∃ d, p.dualsOf? y = some d ∧ d.Attributes p y := by
  obtain ⟨d, hd⟩ : ∃ d, p.dualsOf? y = some d :=
    ⟨⟨_, _⟩, dualsOf?_eq_some_iff.mpr ⟨hy, rfl, rfl⟩⟩
  refine ⟨d, hd, length_multipliers hd, length_psd hd, fun r row hRow => ?_,
    fun id entry hEntry hConstant => multiplier_of_constant hd hEntry hConstant⟩
  have hBound : r < y.length := by
    have hRows := (List.getElem?_eq_some_iff.mp hRow).1
    omega
  rw [multiplier_of_row hd hRow, List.getElem?_eq_getElem hBound, List.getD_eq_getElem _ _ hBound]

section Reading

variable {x y : List α} {d : Duals α} {s : Solution α}

/-- The solution for which a primal vector stands, with its duals. -/
def solutionAt (p : Program α) (x : List α) (d : Duals α) : Solution α where
  worstCase := 0
  order := p.order
  gram := unscale (x.take p.packed)
  values := p.values.zip (x.drop p.packed)
  multipliers := d.multipliers
  psd := d.psd
  warnings := []
  certificate := none

theorem read?_eq (hx : x.length = p.width) (hd : p.dualsOf? y = some d) :
    p.read? x y =
      some { p.solutionAt x d with worstCase := (p.solutionAt x d).eval p.metric } := by
  simp only [read?, gramOf?_eq hx, valuesOf?_eq hx, hd, Option.bind_eq_bind, Option.bind_some]
  rfl

theorem length_gram_solutionAt (hx : x.length = p.width) (d : Duals α) :
    (p.solutionAt x d).gram.length = p.packed := by
  rw [solutionAt, length_unscale, List.length_take_of_le (hx ▸ p.packed_le_width)]

theorem solve?_of_read {b : Backend α} {par : Parameters α}
    (hRay : p.rayCheck? b par = some (.ok ())) (hAnswer : p.answer? b par = some (.ok (x, y)))
    (hRead : p.read? x y = some s) : p.solve? b par = some (p.accept b par s) := by
  simp only [solve?, hRay, hAnswer, hRead, Option.bind_eq_bind, Option.bind_some, Option.pure_def]

end Reading

/-- How a program lays out its constraints and its metric in matrices. -/
structure LaidOut (p : Program α) : Prop where
  mem_rows (row : ConstraintId × StoredConstraint α) : row ∈ p.rows ↔
    p.store.get? row.1 = some row.2 ∧ row.2.constraint.lhs.isConstant = false
  rowIds_nodup : p.rowIds.Nodup
  rows_ordered : p.rows.Pairwise RowBefore
  equalities : p.equalityCount = p.store.entries.countP (·.constraint.isActive .equal)
  inequalities : p.inequalityCount = p.store.entries.countP (·.constraint.isActive .lessEq)
  values_ascending : p.values.Pairwise (· < ·)
  mem_values (k : ValueIndex) : k ∈ p.values ↔ (∃ a, (k, a) ∈ p.metric.values) ∨
    ∃ entry ∈ p.store.entries, entry.constraint.lhs.isConstant = false ∧
      ∃ a, (k, a) ∈ entry.constraint.lhs.values
  valueSlot (k : ValueIndex) (slot : ℕ) : p.valueSlot? k = some slot ↔ p.values[slot]? = some k
  columns (e : Expression α) (he : e ∈ p.expressions) : p.Places e
  columns_distinct (e : Expression α) (he : e ∈ p.expressions) (hBelow : e.GramBelow p.order) :
    ((p.columns e).map (·.1)).Nodup ∧ ∀ column ∈ p.columns e, column.1 < p.width
  duals (y : List α) (hy : p.rows.length + p.packed ≤ y.length) :
    ∃ d, p.dualsOf? y = some d ∧ d.Attributes p y

theorem laidOut (h : ∀ e ∈ p.expressions, e.Canonical) : p.LaidOut where
  mem_rows row := by
    rw [mem_rows_iff, Store.mem_items_iff]
    rfl
  rowIds_nodup := p.rowIds_nodup
  rows_ordered := p.rows_ordered
  equalities := p.store.length_active .equal
  inequalities := p.store.length_active .lessEq
  values_ascending := p.values_ascending
  mem_values _ := mem_values_iff_exists_entry
  valueSlot _ _ := valueSlot?_eq_some_iff
  columns _ he := places_of_mem_expressions he
  columns_distinct e he hBelow :=
    ⟨columns_nodup (h e he) hBelow (covers_of_mem_expressions he),
      columns_lt hBelow (covers_of_mem_expressions he)⟩
  duals _ hy := exists_dualsOf? hy

/-- A store without a constraint that never holds has a program, whose layout is the one that its
matrices need. The expressions have to be in the form that the operations build. -/
theorem assemble_laidOut (store : Store α) (metric : Expression α) (order : ℕ)
    (hStore : ∀ entry ∈ store.entries, entry.constraint.isTriviallyViolated = false)
    (hCanonical : ∀ entry ∈ store.entries, entry.constraint.lhs.Canonical)
    (hMetric : metric.Canonical) :
    ∃ p, assemble store metric order = .ok p ∧
      p.store = store ∧ p.metric = metric ∧ p.order = order ∧ p.LaidOut := by
  refine ⟨⟨store, metric, order⟩, ?_, rfl, rfl, rfl, laidOut fun e he => ?_⟩
  · exact assemble_eq_ok_iff.mpr ⟨Store.triviallyViolated?_eq_none_iff.mpr hStore, rfl⟩
  · obtain rfl | ⟨row, hRow, rfl⟩ := mem_expressions_iff.mp he
    · exact hMetric
    · exact hCanonical row.2 (entry_mem_of_mem_rows hRow)

section Example

/-- A value bounded twice, a constant constraint, and two basis vectors with inner product one. -/
noncomputable def repeatedStore : Store ℝ :=
  ⟨[⟨⟨⟨[(⟨3⟩, 1)], [], 0⟩, .lessEq⟩, .initialCondition⟩,
    ⟨⟨.const (-1), .lessEq⟩, .initialCondition⟩,
    ⟨⟨⟨[], [(⟨⟨0⟩, ⟨1⟩⟩, 1)], -1⟩, .equal⟩, .initialCondition⟩,
    ⟨⟨⟨[(⟨3⟩, 1)], [], 0⟩, .lessEq⟩, .initialCondition⟩]⟩

noncomputable def repeatedMetric : Expression ℝ :=
  ⟨[(⟨1⟩, 1)], [(⟨⟨1⟩, ⟨1⟩⟩, 1)], 0⟩

theorem repeatedStore_possible :
    ∀ entry ∈ repeatedStore.entries, entry.constraint.isTriviallyViolated = false := by
  simp [repeatedStore, Constraint.isTriviallyViolated, Constraint.violation, Expression.isConstant,
    Expression.const]

theorem repeatedStore_canonical :
    ∀ entry ∈ repeatedStore.entries, entry.constraint.lhs.Canonical := by
  intro entry hEntry
  simp only [repeatedStore, List.mem_cons, List.not_mem_nil, or_false] at hEntry
  rcases hEntry with rfl | rfl | rfl | rfl <;> constructor <;>
    simp [Expression.const, Terms.canonical_cons_iff, Terms.canonical_nil, BasisIndex.le_iff]

theorem repeatedMetric_canonical : repeatedMetric.Canonical := by
  constructor <;>
    simp [repeatedMetric, Terms.canonical_cons_iff, Terms.canonical_nil, BasisIndex.le_iff]

theorem assemble_laidOut_repeated :
    (∀ entry ∈ repeatedStore.entries, entry.constraint.isTriviallyViolated = false) ∧
    (∀ entry ∈ repeatedStore.entries, entry.constraint.lhs.Canonical) ∧
    repeatedMetric.Canonical ∧
    ∃ p, assemble repeatedStore repeatedMetric 2 = .ok p ∧ p.LaidOut ∧
      p.rowIds = [⟨2⟩, ⟨0⟩, ⟨3⟩] ∧ p.values = [⟨1⟩, ⟨3⟩] ∧
      ∃ d, p.dualsOf? [5, 6, 7, 0, 0, 0] = some d ∧ d.multipliers[0]? = some 6 ∧
        d.multipliers[1]? = some 0 ∧ d.multipliers[2]? = some 5 ∧ d.multipliers[3]? = some 7 := by
  obtain ⟨p, hAssemble, hStore, hMetric, hOrder, hLayout⟩ := assemble_laidOut repeatedStore
    repeatedMetric 2 repeatedStore_possible repeatedStore_canonical repeatedMetric_canonical
  refine ⟨repeatedStore_possible, repeatedStore_canonical, repeatedMetric_canonical, p, hAssemble,
    hLayout, ?_⟩
  obtain ⟨store, metric, order⟩ := p
  subst hStore hMetric hOrder
  obtain ⟨d, hd, hAttributes⟩ := hLayout.duals [5, 6, 7, 0, 0, 0] le_rfl
  exact ⟨rfl, rfl, d, hd, hAttributes.row 1 _ rfl,
    hAttributes.constant ⟨1⟩ _ rfl rfl,
    hAttributes.row 0 _ rfl, hAttributes.row 2 _ rfl⟩

end Example

end Program

end PerformanceEstimation
