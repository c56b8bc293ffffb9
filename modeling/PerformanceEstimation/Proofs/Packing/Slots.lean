import Mathlib
import PerformanceEstimation.Packed

/-!
# Slots of the packing

The upper triangle in packed order meets the slots in their natural order
(`map_slot_upperTriangle`). Hence a slot belongs to exactly one entry of the upper triangle, the
slots of the first `d` rows and columns are the first `triangular d` numbers, and walking a packing
meets the entry that `BasisPair.slot` computes. The walk is a loop over columns
(`unscaleFrom_eq_columns`) and divides exactly what lies off the diagonal, also if the packing ends
within a column.
-/

set_option autoImplicit false

namespace PerformanceEstimation

theorem triangular_succ (d : ℕ) : triangular (d + 1) = triangular d + (d + 1) := by
  have h : (d + 1) * (d + 1 + 1) = d * (d + 1) + 2 * (d + 1) := by ring
  rw [triangular, triangular, h, Nat.add_mul_div_left _ _ two_pos]

theorem triangular_strictMono : StrictMono triangular := by
  apply strictMono_nat_of_lt_succ
  intro d
  rw [triangular_succ]
  omega

theorem orderOfPacked?_triangular (d : ℕ) : orderOfPacked? (triangular d) = some d := by
  cases h : orderOfPacked? (triangular d) with
  | none =>
    rw [orderOfPacked?, List.find?_eq_none] at h
    have hRange : d < triangular d + 1 := Nat.lt_succ_iff.mpr (triangular_strictMono.le_apply)
    exact absurd BEq.rfl (h d (List.mem_range.mpr hRange))
  | some n =>
    rw [triangular_strictMono.injective (triangular_of_orderOfPacked? h)]

namespace BasisPair

theorem of_row_col {p : BasisPair} (h : p.row ≤ p.col) : of p.row p.col = p :=
  if_pos h

theorem isDiagonal_iff {p : BasisPair} : p.isDiagonal = true ↔ p.row = p.col := by
  simp [isDiagonal]

theorem isDiagonal_of (i j : BasisIndex) : (of i j).isDiagonal = decide (i = j) := by
  unfold of isDiagonal
  split
  · exact Bool.beq_eq_decide_eq i j
  · rw [Bool.beq_eq_decide_eq, decide_eq_decide]
    exact eq_comm

/-- The entries of a column fill the slots between two triangular numbers. -/
theorem slot_lt_triangular_iff {p : BasisPair} (h : p.row ≤ p.col) (d : ℕ) :
    p.slot < triangular d ↔ p.col.pos < d := by
  have hRow : p.row.pos ≤ p.col.pos := h
  have hSucc := triangular_succ p.col.pos
  constructor
  · intro hSlot
    by_contra hCol
    have hMono : triangular d ≤ triangular p.col.pos :=
      triangular_strictMono.monotone (Nat.le_of_not_lt hCol)
    unfold slot at hSlot
    omega
  · intro hCol
    have hMono : triangular (p.col.pos + 1) ≤ triangular d := triangular_strictMono.monotone hCol
    unfold slot
    omega

theorem slot_lt_triangular {p : BasisPair} {d : ℕ} (hRow : p.row.pos < d) (hCol : p.col.pos < d) :
    p.slot < triangular d := by
  have hLarger : triangular p.col.pos ≤ triangular (max p.row.pos p.col.pos) :=
    triangular_strictMono.monotone (le_max_right _ _)
  have hMono : triangular (max p.row.pos p.col.pos + 1) ≤ triangular d :=
    triangular_strictMono.monotone (max_lt hRow hCol)
  have hSucc := triangular_succ (max p.row.pos p.col.pos)
  unfold slot
  omega

theorem eq_of_slot_eq {p q : BasisPair} (hp : p.row ≤ p.col) (hq : q.row ≤ q.col)
    (h : p.slot = q.slot) : p = q := by
  have hCol : p.col.pos = q.col.pos := by
    apply le_antisymm
    · rw [← Nat.lt_succ_iff, ← slot_lt_triangular_iff hp, h, slot_lt_triangular_iff hq]
      exact Nat.lt_succ_self _
    · rw [← Nat.lt_succ_iff, ← slot_lt_triangular_iff hq, ← h, slot_lt_triangular_iff hp]
      exact Nat.lt_succ_self _
  have hRow : p.row.pos = q.row.pos := by
    unfold slot at h
    rw [hCol] at h
    omega
  obtain ⟨⟨i⟩, ⟨j⟩⟩ := p
  obtain ⟨⟨k⟩, ⟨l⟩⟩ := q
  cases hCol
  cases hRow
  rfl

end BasisPair

theorem gramSlot_of_le {p : BasisPair} (h : p.row ≤ p.col) : gramSlot p.row p.col = p.slot := by
  rw [gramSlot, BasisPair.of_row_col h]

theorem gramSlot_self (i : BasisIndex) : gramSlot i i = (⟨i, i⟩ : BasisPair).slot :=
  gramSlot_of_le (p := ⟨i, i⟩) (Nat.le_refl i.pos)

theorem upperTriangle_succ (d : ℕ) :
    upperTriangle (d + 1) = upperTriangle d ++ (List.range (d + 1)).map fun r => ⟨⟨r⟩, ⟨d⟩⟩ := by
  have hRange : List.range (d + 1) = List.range d ++ [d] := List.range_succ
  conv_lhs => rw [upperTriangle, hRange, List.flatMap_append, List.flatMap_singleton]
  rfl

theorem mem_upperTriangle {d : ℕ} {p : BasisPair} :
    p ∈ upperTriangle d ↔ p.row ≤ p.col ∧ p.col.pos < d := by
  obtain ⟨⟨i⟩, ⟨j⟩⟩ := p
  simp only [upperTriangle, List.mem_flatMap, List.mem_range, List.mem_map, BasisIndex.le_iff]
  constructor
  · rintro ⟨c, hc, r, hr, h⟩
    cases h
    exact ⟨Nat.le_of_lt_succ hr, hc⟩
  · rintro ⟨hRow, hCol⟩
    exact ⟨j, hCol, i, Nat.lt_succ_of_le hRow, rfl⟩

theorem diagonal_mem_upperTriangle {d i : ℕ} (hi : i < d) :
    (⟨⟨i⟩, ⟨i⟩⟩ : BasisPair) ∈ upperTriangle d :=
  mem_upperTriangle.mpr ⟨Nat.le_refl i, hi⟩

theorem map_slot_upperTriangle (d : ℕ) :
    (upperTriangle d).map BasisPair.slot = List.range (triangular d) := by
  induction d with
  | zero => rfl
  | succ d ih =>
    have hRange : List.range (triangular d + (d + 1)) =
        List.range (triangular d) ++ (List.range (d + 1)).map (triangular d + ·) := List.range_add
    rw [upperTriangle_succ, List.map_append, ih, List.map_map, triangular_succ, hRange]
    rfl

@[simp] theorem length_upperTriangle (d : ℕ) : (upperTriangle d).length = triangular d := by
  rw [← List.length_map BasisPair.slot, map_slot_upperTriangle, List.length_range]

theorem getElem?_upperTriangle {d : ℕ} {p : BasisPair} (hp : p ∈ upperTriangle d) :
    (upperTriangle d)[p.slot]? = some p := by
  obtain ⟨hRow, hCol⟩ := mem_upperTriangle.mp hp
  have hSlot : p.slot < triangular d := (BasisPair.slot_lt_triangular_iff hRow d).mpr hCol
  have hMap : ((upperTriangle d).map BasisPair.slot)[p.slot]? = some p.slot := by
    rw [map_slot_upperTriangle, List.getElem?_range hSlot]
  rw [List.getElem?_map] at hMap
  obtain ⟨q, hq, hqp⟩ := Option.map_eq_some_iff.mp hMap
  obtain ⟨hqRow, -⟩ := mem_upperTriangle.mp (List.mem_of_getElem? hq)
  rw [hq, BasisPair.eq_of_slot_eq hqRow hRow hqp]

theorem nodup_upperTriangle (d : ℕ) : (upperTriangle d).Nodup := by
  apply List.Nodup.of_map BasisPair.slot
  rw [map_slot_upperTriangle]
  exact List.nodup_range

theorem exists_slot_eq {d k : ℕ} (h : k < triangular d) : ∃ p ∈ upperTriangle d, p.slot = k := by
  have hMem : k ∈ (upperTriangle d).map BasisPair.slot := by
    rw [map_slot_upperTriangle]
    exact List.mem_range.mpr h
  exact List.mem_map.mp hMem

theorem bijOn_gramSlot (d : ℕ) :
    Set.BijOn (fun p : BasisPair => gramSlot p.row p.col) {p | p.row ≤ p.col ∧ p.col.pos < d}
      (Set.Iio (triangular d)) := by
  refine ⟨?_, ?_, ?_⟩
  · rintro p ⟨hRow, hCol⟩
    dsimp only
    rw [gramSlot_of_le hRow]
    exact (BasisPair.slot_lt_triangular_iff hRow d).mpr hCol
  · rintro p ⟨hp, -⟩ q ⟨hq, -⟩ hSlot
    dsimp only at hSlot
    rw [gramSlot_of_le hp, gramSlot_of_le hq] at hSlot
    exact BasisPair.eq_of_slot_eq hp hq hSlot
  · intro k hk
    obtain ⟨p, hp, hSlot⟩ := exists_slot_eq hk
    obtain ⟨hRow, hCol⟩ := mem_upperTriangle.mp hp
    exact ⟨p, ⟨hRow, hCol⟩, (gramSlot_of_le hRow).trans hSlot⟩

theorem map_gramSlot_upperTriangle (d : ℕ) :
    (upperTriangle d).map (fun p => gramSlot p.row p.col) = List.range (triangular d) := by
  rw [← map_slot_upperTriangle]
  exact List.map_congr_left fun p hp => gramSlot_of_le (mem_upperTriangle.mp hp).1

theorem exists_gramSlot_eq (k : ℕ) : ∃ i j, gramSlot i j = k := by
  have hk : k < triangular (k + 1) := triangular_strictMono.le_apply
  obtain ⟨p, -, hSlot⟩ := (bijOn_gramSlot (k + 1)).surjOn hk
  exact ⟨p.row, p.col, hSlot⟩

section Unscale

variable {α : Type} [Scalar α]

theorem length_unscaleFrom (r c : ℕ) (v : List α) : (unscaleFrom r c v).length = v.length := by
  induction v generalizing r c with
  | nil => rfl
  | cons a v ih =>
    rw [unscaleFrom]
    split
    · rw [List.length_cons, ih, List.length_cons]
    · rw [List.length_cons, ih, List.length_cons]

@[simp] theorem length_unscale (v : List α) : (unscale v).length = v.length :=
  length_unscaleFrom 0 0 v

/-- The walk from row `r` of column `c` on stands at the entry with the slot that it has reached. -/
theorem getElem?_unscaleFrom {r c : ℕ} (hr : r ≤ c) (v : List α) {p : BasisPair}
    (hp : p.row ≤ p.col) {k : ℕ} (hk : p.slot = triangular c + r + k) :
    (unscaleFrom r c v)[k]? =
      v[k]?.map fun a => if p.isDiagonal then a else a / Scalar.sqrtTwo := by
  induction v generalizing r c k with
  | nil => rfl
  | cons a v ih =>
    rw [unscaleFrom]
    cases k with
    | zero =>
      have hEntry : p = ⟨⟨r⟩, ⟨c⟩⟩ := BasisPair.eq_of_slot_eq hp hr hk
      split
      · rename_i hLess
        have hOff : p.isDiagonal = false := by
          rw [hEntry, ← Bool.not_eq_true, BasisPair.isDiagonal_iff]
          exact fun h => hLess.ne (congrArg BasisIndex.pos h)
        simp [hOff]
      · rename_i hLess
        have hDiagonal : p.isDiagonal = true := by
          rw [hEntry, BasisPair.isDiagonal_iff]
          exact congrArg BasisIndex.mk (le_antisymm hr (Nat.le_of_not_lt hLess))
        simp [hDiagonal]
    | succ k =>
      split
      · rename_i hLess
        exact ih hLess (by omega)
      · apply ih (Nat.zero_le _)
        rw [triangular_succ]
        omega

theorem getElem?_unscale (v : List α) {p : BasisPair} (hp : p.row ≤ p.col) :
    (unscale v)[p.slot]? =
      v[p.slot]?.map fun a => if p.isDiagonal then a else a / Scalar.sqrtTwo :=
  getElem?_unscaleFrom le_rfl v hp (by rw [triangular]; omega)

theorem getElem?_unscale_gramSlot (v : List α) (i j : BasisIndex) :
    (unscale v)[gramSlot i j]? =
      v[gramSlot i j]?.map fun a => if i = j then a else a / Scalar.sqrtTwo := by
  have hEntry := getElem?_unscale v (BasisPair.row_le_col_of i j)
  simp only [BasisPair.isDiagonal_of, decide_eq_true_eq] at hEntry
  exact hEntry

theorem forall_mem_unscaleFrom (P : α → Prop) (hDiv : ∀ a, P a → P (a / Scalar.sqrtTwo))
    (r c : ℕ) {v : List α} (hv : ∀ a ∈ v, P a) : ∀ a ∈ unscaleFrom r c v, P a := by
  induction v generalizing r c with
  | nil => exact hv
  | cons a v ih =>
    obtain ⟨ha, hRest⟩ := List.forall_mem_cons.mp hv
    rw [unscaleFrom]
    split
    · exact List.forall_mem_cons.mpr ⟨hDiv a ha, ih _ _ hRest⟩
    · exact List.forall_mem_cons.mpr ⟨ha, ih _ _ hRest⟩

theorem forall_mem_unscale (P : α → Prop) (hDiv : ∀ a, P a → P (a / Scalar.sqrtTwo)) {v : List α}
    (hv : ∀ a ∈ v, P a) : ∀ a ∈ unscale v, P a :=
  forall_mem_unscaleFrom P hDiv 0 0 hv

end Unscale

section Columns

variable {α : Type} [Scalar α]

/-- A column of a packing from row `r` on: all entries but the one in row `c` lie off the
diagonal. -/
def unscaleColumn (r c : ℕ) (v : List α) : List α :=
  v.mapIdx fun k a => if r + k = c then a else a / Scalar.sqrtTwo

/-- The walk as a loop over columns. The last column ends where the packing does. -/
def unscaleColumns (c : ℕ) : List α → List α
  | [] => []
  | a :: v =>
    unscaleColumn 0 c ((a :: v).take (c + 1)) ++ unscaleColumns (c + 1) ((a :: v).drop (c + 1))
termination_by v => v.length
decreasing_by
  rw [List.length_drop, List.length_cons]
  omega

theorem unscaleColumn_cons (r c : ℕ) (a : α) (v : List α) :
    unscaleColumn r c (a :: v) =
      (if r = c then a else a / Scalar.sqrtTwo) :: unscaleColumn (r + 1) c v := by
  simp only [unscaleColumn, List.mapIdx_cons, Nat.add_zero, Nat.add_assoc, Nat.add_comm 1]

theorem unscaleFrom_eq_column {r c : ℕ} (hr : r ≤ c) (v : List α) :
    unscaleFrom r c v =
      unscaleColumn r c (v.take (c + 1 - r)) ++ unscaleFrom 0 (c + 1) (v.drop (c + 1 - r)) := by
  induction v generalizing r with
  | nil =>
    rw [List.take_nil, List.drop_nil]
    rfl
  | cons a v ih =>
    have hRows : c + 1 - r = (c - r) + 1 := Nat.sub_add_comm hr
    rw [hRows, List.take_succ_cons, List.drop_succ_cons, unscaleColumn_cons, unscaleFrom]
    split
    · rename_i hLess
      have hRest : c - r = c + 1 - (r + 1) := (Nat.add_sub_add_right c 1 r).symm
      rw [if_neg hLess.ne, ih hLess, hRest, List.cons_append]
    · rename_i hLess
      obtain rfl : r = c := le_antisymm hr (Nat.le_of_not_lt hLess)
      rw [if_pos rfl, Nat.sub_self]
      rfl

theorem unscaleFrom_eq_columns (c : ℕ) (v : List α) : unscaleFrom 0 c v = unscaleColumns c v := by
  -- along the loop over columns, each of which is walked to its end
  induction c, v using unscaleColumns.induct with
  | case1 c => rw [unscaleFrom, unscaleColumns]
  | case2 c a v ih => rw [unscaleFrom_eq_column (Nat.zero_le c), Nat.sub_zero, ih, unscaleColumns]

end Columns

/-- The packing of symmetric matrices. The slots of the pairs in the upper triangle of order `d` are
the first `d * (d + 1) / 2` numbers, each of them once; they do not depend on the order of a pair
nor on the order of the matrix, whose upper triangle begins with that of any smaller one. Removing
the factor of a packing of any length is a loop over its columns that keeps the length, leaves the
entries on the diagonal, and divides all others. -/
theorem packing_exact :
    (∀ d, Set.BijOn (fun p : BasisPair => gramSlot p.row p.col)
      {p | p.row ≤ p.col ∧ p.col.pos < d} (Set.Iio (d * (d + 1) / 2))) ∧
    (∀ i j, gramSlot i j = gramSlot j i) ∧
    (∀ d, upperTriangle d <+: upperTriangle (d + 1) ∧
      (upperTriangle d).map (fun p => gramSlot p.row p.col) = List.range (d * (d + 1) / 2)) ∧
    (∀ k, ∃ i j, gramSlot i j = k) ∧
    ∀ (α : Type) [Scalar α] (v : List α),
      unscale v = unscaleColumns 0 v ∧ (unscale v).length = v.length ∧
      ∀ i j, (unscale v)[gramSlot i j]? =
        v[gramSlot i j]?.map fun a => if i = j then a else a / Scalar.sqrtTwo := by
  refine ⟨bijOn_gramSlot, gramSlot_comm, fun d => ⟨?_, map_gramSlot_upperTriangle d⟩,
    exists_gramSlot_eq, fun α _ v => ⟨?_, length_unscale v, getElem?_unscale_gramSlot v⟩⟩
  · rw [upperTriangle_succ]
    exact List.prefix_append _ _
  · exact unscaleFrom_eq_columns 0 v

end PerformanceEstimation
