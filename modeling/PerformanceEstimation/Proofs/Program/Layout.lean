import Mathlib
import PerformanceEstimation.Program.Lowering
import PerformanceEstimation.Proofs.Algebra.Expressions
import PerformanceEstimation.Proofs.Packing.Slots

/-!
# Rows and columns of a program

Rows are the stored constraints that involve an unknown. Columns are the slots of the Gram matrix
and after them the function values that the metric or a row refers to. On a well-formed program the
columns of every such expression are distinct and lie inside the program, so no term is dropped and
no coefficient overwritten.
-/

set_option autoImplicit false

namespace PerformanceEstimation

section Ascending

variable {κ : Type} [Key κ]

theorem mem_insertAscending {j k : κ} {ks : List κ} :
    j ∈ insertAscending k ks ↔ j = k ∨ j ∈ ks := by
  induction ks with
  | nil => simp [insertAscending]
  | cons i ks ih =>
    rw [insertAscending]
    split
    · exact List.mem_cons
    · split
      · rename_i hEq
        rw [hEq, List.mem_cons, or_self_left]
      · rw [List.mem_cons, ih, List.mem_cons, or_left_comm]

theorem pairwise_insertAscending {k : κ} {ks : List κ} (h : ks.Pairwise (· < ·)) :
    (insertAscending k ks).Pairwise (· < ·) := by
  induction ks with
  | nil => exact List.pairwise_singleton _ _
  | cons i ks ih =>
    obtain ⟨hHead, hTail⟩ := List.pairwise_cons.mp h
    rw [insertAscending]
    split
    · rename_i hLess
      refine List.pairwise_cons.mpr ⟨fun j hj => ?_, h⟩
      rcases List.mem_cons.mp hj with rfl | hj
      · exact hLess
      · exact Key.lt_trans _ _ _ hLess (hHead j hj)
    · rename_i hLess
      split
      · exact h
      · rename_i hNe
        refine List.pairwise_cons.mpr ⟨fun j hj => ?_, ih hTail⟩
        rcases mem_insertAscending.mp hj with rfl | hj
        · exact Key.lt_of_not_lt_of_ne _ _ hLess hNe
        · exact hHead j hj

theorem mem_foldl_insertAscending {j : κ} {ks acc : List κ} :
    j ∈ ks.foldl (fun acc k => insertAscending k acc) acc ↔ j ∈ ks ∨ j ∈ acc := by
  induction ks generalizing acc with
  | nil => simp
  | cons k ks ih => rw [List.foldl_cons, ih, mem_insertAscending, List.mem_cons, or_assoc,
      or_left_comm]

theorem pairwise_foldl_insertAscending {ks acc : List κ} (h : acc.Pairwise (· < ·)) :
    (ks.foldl (fun acc k => insertAscending k acc) acc).Pairwise (· < ·) := by
  induction ks generalizing acc with
  | nil => exact h
  | cons k ks ih => exact ih (pairwise_insertAscending h)

end Ascending

theorem idxOf?_eq_some_iff_of_nodup {κ : Type} [DecidableEq κ] {ks : List κ} (h : ks.Nodup)
    {k : κ} {i : ℕ} : ks.idxOf? k = some i ↔ ks[i]? = some k := by
  rw [List.idxOf?_eq_some_iff, List.getElem?_eq_some_iff]
  constructor
  · rintro ⟨hi, hk, -⟩
    exact ⟨hi, hk⟩
  · rintro ⟨hi, hk⟩
    exact ⟨hi, hk, fun j hj hOther => hj.ne (h.getElem_inj_iff.mp (hOther.trans hk.symm))⟩

namespace Store

variable {α : Type}

theorem mem_items_iff {s : Store α} {row : ConstraintId × StoredConstraint α} :
    row ∈ s.items ↔ s.entries[row.1.pos]? = some row.2 := by
  obtain ⟨⟨i⟩, entry⟩ := row
  simp only [items, List.mem_map, Prod.exists, Prod.mk.injEq, ConstraintId.mk.injEq,
    ← List.mk_mem_zipIdx_iff_getElem?]
  constructor
  · rintro ⟨a, b, h, rfl, rfl⟩
    exact h
  · intro h
    exact ⟨entry, i, h, rfl, rfl⟩

theorem mem_active_iff {s : Store α} {sense : Sense}
    {row : ConstraintId × StoredConstraint α} :
    row ∈ s.active sense ↔
      row ∈ s.items ∧ row.2.constraint.sense = sense ∧ row.2.constraint.lhs.isConstant = false := by
  simp [active, Constraint.isActive]

end Store

namespace Program

variable {α : Type}

theorem mem_rows_iff {p : Program α} {row : ConstraintId × StoredConstraint α} :
    row ∈ p.rows ↔ row ∈ p.store.items ∧ row.2.constraint.lhs.isConstant = false := by
  rw [rows, List.mem_append, Store.mem_active_iff, Store.mem_active_iff]
  cases row.2.constraint.sense <;> simp

theorem entry_mem_of_mem_rows {p : Program α} {row : ConstraintId × StoredConstraint α}
    (h : row ∈ p.rows) : row.2 ∈ p.store.entries :=
  List.mem_of_getElem? (Store.mem_items_iff.mp (mem_rows_iff.mp h).1)

theorem forall_rows_iff {p : Program α} {P : StoredConstraint α → Prop} :
    (∀ row ∈ p.rows, P row.2) ↔
      ∀ entry ∈ p.store.entries, entry.constraint.lhs.isConstant = false → P entry := by
  constructor
  · intro h entry hEntry hUnknown
    obtain ⟨i, hi⟩ := List.mem_iff_getElem?.mp hEntry
    exact h (⟨i⟩, entry) (mem_rows_iff.mpr ⟨Store.mem_items_iff.mpr hi, hUnknown⟩)
  · intro h row hRow
    exact h row.2 (entry_mem_of_mem_rows hRow) (mem_rows_iff.mp hRow).2

theorem length_rows (p : Program α) :
    p.rows.length = p.equalityCount + p.inequalityCount :=
  List.length_append

theorem mem_values_iff {p : Program α} {k : ValueIndex} :
    k ∈ p.values ↔ (∃ term ∈ p.metric.values, term.1 = k) ∨
      ∃ row ∈ p.rows, ∃ term ∈ row.2.constraint.lhs.values, term.1 = k := by
  simp [values, mem_foldl_insertAscending, or_comm]

theorem values_ascending (p : Program α) : p.values.Pairwise (· < ·) :=
  pairwise_foldl_insertAscending List.Pairwise.nil

theorem values_nodup (p : Program α) : p.values.Nodup :=
  p.values_ascending.imp fun {j k} (hlt : j < k) (heq : j = k) => Key.lt_irrefl k (heq ▸ hlt)

def Covers (p : Program α) (e : Expression α) : Prop :=
  ∀ term ∈ e.values, term.1 ∈ p.values

theorem covers_metric (p : Program α) : p.Covers p.metric :=
  fun term hTerm => mem_values_iff.mpr (.inl ⟨term, hTerm, rfl⟩)

theorem covers_row {p : Program α} {row : ConstraintId × StoredConstraint α} (h : row ∈ p.rows) :
    p.Covers row.2.constraint.lhs :=
  fun term hTerm => mem_values_iff.mpr (.inr ⟨row, h, term, hTerm, rfl⟩)

def valueColumn (p : Program α) (k : ValueIndex) : ℕ :=
  p.packed + p.values.idxOf k

theorem valueColumn_lt {p : Program α} {k : ValueIndex} (h : k ∈ p.values) :
    p.valueColumn k < p.width :=
  Nat.add_lt_add_left (List.idxOf_lt_length_of_mem h) _

theorem valueColumn_injective {p : Program α} {j k : ValueIndex} (hj : j ∈ p.values)
    (h : p.valueColumn j = p.valueColumn k) : j = k :=
  (List.idxOf_inj hj).mp (Nat.add_left_cancel h)

theorem packed_le_width (p : Program α) : p.packed ≤ p.width :=
  Nat.le_add_right _ _

theorem slot_lt_packed {p : Program α} {e : Expression α} (hBelow : e.GramBelow p.order)
    {term : BasisPair × α} (h : term ∈ e.gram) : term.1.slot < p.packed :=
  BasisPair.slot_lt_triangular (hBelow term h).1 (hBelow term h).2

theorem gramSlot_self_lt {p : Program α} {i : ℕ} (hi : i < p.order) :
    gramSlot ⟨i⟩ ⟨i⟩ < p.packed := by
  rw [gramSlot_self]
  exact BasisPair.slot_lt_triangular hi hi

theorem length_drop_packed {p : Program α} {x : List α} (hx : x.length = p.width) :
    (x.drop p.packed).length = p.values.length := by
  rw [List.length_drop, hx, width, Nat.add_sub_cancel_left]

theorem valuesOf?_eq {p : Program α} {x : List α} (hx : x.length = p.width) :
    p.valuesOf? x = some (x.drop p.packed) := by
  rw [valuesOf?, if_pos hx.ge, List.take_of_length_le (length_drop_packed hx).le]

variable [Scalar α]

/-- Every expression is in the form that the operations build, and uses Gram entries of the matrix
only. -/
structure WellFormed (p : Program α) : Prop where
  metric : p.metric.Canonical ∧ p.metric.GramBelow p.order
  stored : ∀ entry ∈ p.store.entries,
    entry.constraint.lhs.Canonical ∧ entry.constraint.lhs.GramBelow p.order

def scaledCoefficient (pair : BasisPair) (q : α) : α :=
  if pair.isDiagonal then q else q / Scalar.sqrtTwo

theorem columns_eq {p : Program α} {e : Expression α} (h : p.Covers e) :
    p.columns e = e.gram.map (fun term => (term.1.slot, scaledCoefficient term.1 term.2))
      ++ e.values.map fun term => (p.valueColumn term.1, term.2) := by
  have hValue : ∀ term ∈ e.values,
      (p.values.idxOf? term.1).map (fun slot => (p.packed + slot, term.2)) =
        some (p.valueColumn term.1, term.2) := by
    intro term hTerm
    obtain ⟨slot, hSlot⟩ := Option.isSome_iff_exists.mp (List.isSome_idxOf?.mpr (h term hTerm))
    rw [valueColumn, List.idxOf_eq_getD_idxOf?, hSlot, Option.map_some, Option.getD_some]
  have hValues := List.filterMap_congr hValue
  rw [List.filterMap_eq_map'] at hValues
  exact congrArg (e.gram.map _ ++ ·) hValues

variable {p : Program α} {e : Expression α}

theorem columns_lt (hBelow : e.GramBelow p.order) (hCovers : p.Covers e) :
    ∀ column ∈ p.columns e, column.1 < p.width := by
  intro column hColumn
  rw [columns_eq hCovers, List.mem_append, List.mem_map, List.mem_map] at hColumn
  rcases hColumn with ⟨term, hTerm, rfl⟩ | ⟨term, hTerm, rfl⟩
  · exact (slot_lt_packed hBelow hTerm).trans_le (Nat.le_add_right _ _)
  · exact valueColumn_lt (hCovers term hTerm)

theorem columns_nodup (he : e.Canonical) (hBelow : e.GramBelow p.order) (hCovers : p.Covers e) :
    ((p.columns e).map (·.1)).Nodup := by
  rw [columns_eq hCovers, List.map_append, List.map_map, List.map_map, List.nodup_append]
  refine ⟨?_, ?_, ?_⟩
  · refine (List.Nodup.of_map _ he.gram.keys_nodup).map_on fun s hs t ht hst => ?_
    have hKey : s.1 = t.1 := BasisPair.eq_of_slot_eq (he.upper s hs) (he.upper t ht) hst
    exact List.inj_on_of_nodup_map he.gram.keys_nodup hs ht hKey
  · refine (List.Nodup.of_map _ he.values.keys_nodup).map_on fun s hs t ht hst => ?_
    have hKey : s.1 = t.1 := valueColumn_injective (hCovers s hs) hst
    exact List.inj_on_of_nodup_map he.values.keys_nodup hs ht hKey
  · intro a ha b hb
    obtain ⟨s, hs, rfl⟩ := List.mem_map.mp ha
    obtain ⟨t, -, rfl⟩ := List.mem_map.mp hb
    exact ((slot_lt_packed hBelow hs).trans_le (Nat.le_add_right _ _)).ne

theorem length_constraintRows (p : Program α) : p.constraintRows.length = p.rows.length :=
  List.length_map _

theorem equalityCount_le (p : Program α) : p.equalityCount ≤ p.constraintRows.length := by
  rw [length_constraintRows, length_rows]
  exact Nat.le_add_right _ _

theorem constraintRows_inside (h : ∀ row ∈ p.rows, row.2.constraint.lhs.GramBelow p.order) :
    ∀ row ∈ p.constraintRows, ∀ column ∈ row.columns, column.1 < p.width := by
  intro row hRow
  obtain ⟨stored, hStored, rfl⟩ := List.mem_map.mp hRow
  exact columns_lt (h stored hStored) (covers_row hStored)

theorem normalizingRows_inside :
    ∀ row ∈ p.normalizingRows, ∀ column ∈ row.columns, column.1 < p.width := by
  intro row hRow column hColumn
  rcases List.mem_cons.mp hRow with rfl | hRow
  · obtain ⟨i, hi, rfl⟩ := List.mem_map.mp hColumn
    exact (gramSlot_self_lt (List.mem_range.mp hi)).trans_le p.packed_le_width
  · obtain ⟨k, hk, hRow⟩ := List.mem_flatMap.mp hRow
    have hSlot : p.packed + k < p.width := Nat.add_lt_add_left (List.mem_range.mp hk) _
    -- both bounds of a value have its column only
    rcases List.mem_pair.mp hRow with rfl | rfl <;> rwa [List.mem_singleton.mp hColumn]

theorem gramOf?_eq {x : List α} (hx : x.length = p.width) :
    p.gramOf? x = some (unscale (x.take p.packed)) :=
  if_pos (hx ▸ p.packed_le_width)

section Assigned

theorem assigned_concat (columns : List (ℕ × α)) (column : ℕ × α) (c : ℕ) :
    assigned (columns ++ [column]) c = if column.1 = c then column.2 else assigned columns c := by
  rw [assigned, List.foldl_append]
  rfl

theorem assigned_eq_zero {columns : List (ℕ × ℝ)} {c : ℕ} (h : ∀ column ∈ columns, column.1 ≠ c) :
    assigned columns c = 0 := by
  induction columns using List.reverseRecOn with
  | nil => exact zero_real
  | append_singleton columns column ih =>
    rw [assigned_concat, if_neg (h column (by simp))]
    exact ih fun other hOther => h other (List.mem_append_left _ hOther)

theorem assigned_eq_of_mem {columns : List (ℕ × α)} (hNodup : (columns.map (·.1)).Nodup)
    {column : ℕ × α} (h : column ∈ columns) : assigned columns column.1 = column.2 := by
  induction columns using List.reverseRecOn with
  | nil => cases h
  | append_singleton columns last ih =>
    rw [List.map_append, List.nodup_append] at hNodup
    obtain ⟨hInit, -, hDisjoint⟩ := hNodup
    rw [assigned_concat]
    rcases List.mem_append.mp h with hMem | hMem
    · rw [if_neg]
      · exact ih hInit hMem
      · exact (hDisjoint _ (List.mem_map_of_mem hMem) _ (by simp)).symm
    · rw [List.mem_singleton.mp hMem, if_pos rfl]

end Assigned

end Program

end PerformanceEstimation
