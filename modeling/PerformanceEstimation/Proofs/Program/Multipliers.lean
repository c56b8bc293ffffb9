import Mathlib
import PerformanceEstimation.Proofs.Program.Layout
import PerformanceEstimation.Solve

/-!
# Multipliers by identifier

A dual vector has an entry for each row, in row order, and a solution a multiplier for each stored
constraint, in store order. The multiplier under an identifier is the entry of the row that the
constraint has in the conic program, and zero for a constraint that has none; a certificate names
the same constraints (`Solution.Attributes`).
-/

set_option autoImplicit false

namespace PerformanceEstimation

open Scalar

variable {α : Type}

namespace Store

theorem getElem?_items {s : Store α} {id : ConstraintId} :
    s.items[id.pos]? = (s.get? id).map fun entry => (id, entry) := by
  rw [items, List.getElem?_map, List.getElem?_zipIdx, get?, Option.map_map]
  simp only [Nat.zero_add]
  rfl

end Store

namespace Program

theorem rowIds_nodup (p : Program α) : p.rowIds.Nodup := by
  have hIds : (p.store.items.map (·.1)).Nodup := by
    have hRange : p.store.items.map (·.1) = (p.store.entries.zipIdx.map (·.2)).map .mk := by
      rw [Store.items, List.map_map, List.map_map]
      rfl
    rw [hRange, List.zipIdx_map_snd]
    exact List.Nodup.map (fun i j h => ConstraintId.mk.inj h) List.nodup_range'
  have hActive (sense : Sense) : ((p.store.active sense).map (·.1)).Nodup :=
    hIds.sublist (List.filter_sublist.map _)
  rw [rowIds, rows, List.map_append]
  refine List.nodup_append.mpr ⟨hActive _, hActive _, ?_⟩
  intro i hi j hj
  obtain ⟨row, hRow, rfl⟩ := List.mem_map.mp hi
  obtain ⟨other, hOther, rfl⟩ := List.mem_map.mp hj
  obtain ⟨hItem, hSense, -⟩ := Store.mem_active_iff.mp hRow
  obtain ⟨hItem', hSense', -⟩ := Store.mem_active_iff.mp hOther
  intro hId
  rw [Store.mem_items_iff] at hItem hItem'
  rw [hId, hItem', Option.some.injEq] at hItem
  rw [← hItem, hSense'] at hSense
  cases hSense

variable {p : Program α} {row : ConstraintId × StoredConstraint α} {r : ℕ}

theorem get?_of_row (h : p.rows[r]? = some row) : p.store.get? row.1 = some row.2 :=
  Store.mem_items_iff.mp (mem_rows_iff.mp (List.mem_of_getElem? h)).1

theorem exists_row {id : ConstraintId} {entry : StoredConstraint α}
    (h : p.store.get? id = some entry) (hUnknown : entry.constraint.lhs.isConstant = false) :
    ∃ r : ℕ, p.rows[r]? = some (id, entry) :=
  List.mem_iff_getElem?.mp (mem_rows_iff.mpr ⟨Store.mem_items_iff.mpr h, hUnknown⟩)

theorem idxOf?_rowIds (h : p.rows[r]? = some row) : p.rowIds.idxOf? row.1 = some r := by
  rw [idxOf?_eq_some_iff_of_nodup p.rowIds_nodup, rowIds, List.getElem?_map, h, Option.map_some]

theorem idxOf?_rowIds_eq_none {id : ConstraintId} {entry : StoredConstraint α}
    (h : p.store.get? id = some entry) (hConstant : entry.constraint.lhs.isConstant = true) :
    p.rowIds.idxOf? id = none := by
  rw [List.idxOf?_eq_none_iff]
  intro hMem
  obtain ⟨⟨id', entry'⟩, hRow, rfl⟩ := List.mem_map.mp hMem
  obtain ⟨hItem, hUnknown⟩ := mem_rows_iff.mp hRow
  cases h.symm.trans (Store.mem_items_iff.mp hItem)
  rw [hConstant] at hUnknown
  cases hUnknown

variable [Scalar α] {y : List α} {d : Duals α}

theorem dualsOf?_eq_some_iff : p.dualsOf? y = some d ↔
    p.rows.length + p.packed ≤ y.length ∧
      d.multipliers = p.store.items.map (fun item =>
        ((p.rowIds.idxOf? item.1).map fun r => y.getD r 0).getD 0) ∧
      d.psd = unscale ((y.drop p.rows.length).take p.packed) := by
  have hLength : p.rowIds.length = p.rows.length := List.length_map _
  obtain ⟨multipliers, psd⟩ := d
  unfold dualsOf?
  dsimp only
  rw [hLength, Option.ite_none_right_eq_some, Option.some.injEq, Duals.mk.injEq,
    eq_comm (b := multipliers), eq_comm (b := psd)]

theorem getElem?_multipliers (hd : p.dualsOf? y = some d) (id : ConstraintId) :
    d.multipliers[id.pos]? = (p.store.get? id).map fun _ =>
      ((p.rowIds.idxOf? id).map fun r => y.getD r 0).getD 0 := by
  obtain ⟨-, hMultipliers, -⟩ := dualsOf?_eq_some_iff.mp hd
  rw [hMultipliers, List.getElem?_map, Store.getElem?_items, Option.map_map]
  rfl

theorem length_multipliers (hd : p.dualsOf? y = some d) : d.multipliers.length = p.store.size := by
  obtain ⟨-, hMultipliers, -⟩ := dualsOf?_eq_some_iff.mp hd
  rw [hMultipliers, List.length_map, Store.items, List.length_map, List.length_zipIdx, Store.size]

theorem length_psd (hd : p.dualsOf? y = some d) : d.psd.length = p.packed := by
  obtain ⟨hLength, -, hPsd⟩ := dualsOf?_eq_some_iff.mp hd
  rw [hPsd, length_unscale, List.length_take, List.length_drop]
  omega

theorem multiplier_of_row (hd : p.dualsOf? y = some d) (h : p.rows[r]? = some row) :
    d.multipliers[row.1.pos]? = some (y.getD r 0) := by
  rw [getElem?_multipliers hd, get?_of_row h, idxOf?_rowIds h]
  rfl

theorem multiplier_of_constant (hd : p.dualsOf? y = some d) {id : ConstraintId}
    {entry : StoredConstraint α} (h : p.store.get? id = some entry)
    (hConstant : entry.constraint.lhs.isConstant = true) :
    d.multipliers[id.pos]? = some 0 := by
  rw [getElem?_multipliers hd, h, idxOf?_rowIds_eq_none h hConstant]
  rfl

/-- A certificate has an entry for each row, with the entry of the dual vector at it. -/
theorem entries_extract (hd : p.dualsOf? y = some d) {psd : List α} :
    (Certificate.extract p d.multipliers psd).entries = p.rows.mapIdx fun i row =>
      ⟨row.1, row.2.origin, row.2.constraint, y.getD i 0⟩ := by
  have hRows : (p.rows.map fun row => d.multipliers[row.1.pos]?.map fun multiplier =>
      (⟨row.1, row.2.origin, row.2.constraint, multiplier⟩ : CertificateEntry α)) =
      (p.rows.mapIdx fun i row => (⟨row.1, row.2.origin, row.2.constraint, y.getD i 0⟩ :
        CertificateEntry α)).map some := by
    apply List.ext_getElem (by simp)
    intro i hi hi'
    have hRow : i < p.rows.length := by simpa using hi
    simp [multiplier_of_row hd (List.getElem?_eq_getElem hRow)]
  have hEntries := congrArg (List.filterMap id) hRows
  rw [List.filterMap_map] at hEntries
  exact hEntries.trans (by simp)

theorem map_id_extract (hd : p.dualsOf? y = some d) (psd : List α) :
    (Certificate.extract p d.multipliers psd).entries.map (·.id) = p.rowIds := by
  refine List.ext_getElem? fun r => ?_
  rw [entries_extract hd, rowIds, List.getElem?_map, List.getElem?_mapIdx, Option.map_map,
    List.getElem?_map]
  rfl

theorem of_mem_entries_extract {multipliers psd : List α} {e : CertificateEntry α}
    (h : e ∈ (Certificate.extract p multipliers psd).entries) :
    p.store.get? e.id = some ⟨e.constraint, e.origin⟩ ∧
      multipliers[e.id.pos]? = some e.multiplier := by
  obtain ⟨⟨id, entry⟩, hRow, hFound⟩ := List.mem_filterMap.mp h
  obtain ⟨multiplier, hMultiplier, rfl⟩ := Option.map_eq_some_iff.mp hFound
  exact ⟨Store.mem_items_iff.mp (mem_rows_iff.mp hRow).1, hMultiplier⟩

theorem accept_eq_ok {b : Backend α} {par : Parameters α} {s solution : Solution α}
    (h : p.accept b par s = .ok solution) : solution.multipliers = s.multipliers ∧
      solution.certificate =
        if par.certificate then some (.extract p s.multipliers s.psd) else none := by
  unfold accept at h
  cases hJudged : (s.defects b.minEigenvalue p).mapM par.judge with
  | error e =>
    rw [hJudged] at h
    cases h
  | ok warnings =>
    rw [hJudged] at h
    cases h
    exact ⟨rfl, rfl⟩

theorem solve?_eq_ok {b : Backend α} {par : Parameters α} {solution : Solution α}
    (h : p.solve? b par = some (.ok solution)) :
    ∃ x y d, p.answer? b par = some (.ok (x, y)) ∧ p.dualsOf? y = some d ∧
      solution.multipliers = d.multipliers ∧ solution.certificate =
        if par.certificate then some (.extract p d.multipliers d.psd) else none := by
  obtain ⟨outcome, -, h⟩ := Option.bind_eq_some_iff.mp h
  cases outcome with
  | error e => cases h
  | ok _ =>
    obtain ⟨answer, hAnswer, h⟩ := Option.bind_eq_some_iff.mp h
    cases answer with
    | error e => cases h
    | ok answer =>
      obtain ⟨s, hRead, h⟩ := Option.bind_eq_some_iff.mp h
      obtain ⟨hMultipliers, hCertificate⟩ := accept_eq_ok (Option.some.inj h)
      obtain ⟨gram, -, hRead⟩ := Option.bind_eq_some_iff.mp hRead
      obtain ⟨values, -, hRead⟩ := Option.bind_eq_some_iff.mp hRead
      obtain ⟨d, hd, hRead⟩ := Option.bind_eq_some_iff.mp hRead
      cases hRead
      exact ⟨answer.1, answer.2, d, hAnswer, hd, hMultipliers, hCertificate⟩

end Program

/-- Multipliers and certificate of a solution name the constraints of a program by its identifiers,
for the dual vector `y`. -/
structure Solution.Attributes [Scalar α] (solution : Solution α) (p : Program α) (y : List α) :
    Prop where
  length : solution.multipliers.length = p.store.size
  row (id : ConstraintId) (entry : StoredConstraint α) (h : p.store.get? id = some entry)
    (hUnknown : entry.constraint.lhs.isConstant = false) :
    ∃ r : ℕ, p.rows[r]? = some (id, entry) ∧
      p.constraintRows[r]? =
        some ⟨p.columns entry.constraint.lhs, -entry.constraint.lhs.constant⟩ ∧
      solution.multipliers[id.pos]? = some (y.getD r 0)
  constant (id : ConstraintId) (entry : StoredConstraint α) (h : p.store.get? id = some entry)
    (hConstant : entry.constraint.lhs.isConstant = true) :
    solution.multipliers[id.pos]? = some 0
  certificate (certificate : Certificate α) (h : solution.certificate = some certificate) :
    certificate.entries.map (·.id) = p.rowIds ∧ ∀ e ∈ certificate.entries,
      p.store.get? e.id = some ⟨e.constraint, e.origin⟩ ∧
        solution.multipliers[e.id.pos]? = some e.multiplier

theorem Program.attributes_of_solve? [Scalar α] {p : Program α} {b : Backend α}
    {par : Parameters α} {solution : Solution α} (h : p.solve? b par = some (.ok solution)) :
    ∃ x y, p.answer? b par = some (.ok (x, y)) ∧ solution.Attributes p y := by
  obtain ⟨x, y, d, hAnswer, hd, hMultipliers, hCertificate⟩ := solve?_eq_ok h
  refine ⟨x, y, hAnswer, ?_, ?_, ?_, ?_⟩
  · rw [hMultipliers, length_multipliers hd]
  · intro id entry hEntry hUnknown
    obtain ⟨r, hRow⟩ := exists_row hEntry hUnknown
    refine ⟨r, hRow, ?_, ?_⟩
    · rw [constraintRows, List.getElem?_map, hRow]
      rfl
    · rw [hMultipliers, multiplier_of_row hd hRow]
  · intro id entry hEntry hConstant
    rw [hMultipliers, multiplier_of_constant hd hEntry hConstant]
  · intro certificate hSome
    rw [hCertificate] at hSome
    split at hSome
    · cases hSome
      refine ⟨map_id_extract hd _, fun e he => ?_⟩
      rw [hMultipliers]
      exact of_mem_entries_extract he
    · cases hSome

end PerformanceEstimation
