import Mathlib
import PerformanceEstimation.Proofs.Algebra.Constructions

/-!
# Stored coefficients

What the operations on sparse terms do to the coefficient of one key, in any arithmetic: a
coefficient is absent or stored, each term that is added to it makes one sum of it, and a sum of
zero is not stored (`Terms.accumulate`). In canonical form nothing else is known of the terms
(`Terms.forall₂_of_lookup`). A Gram entry of an inner product takes at most two products, that of
the earlier basis vector first (`Point.lookup_inner`).
-/

set_option autoImplicit false

namespace PerformanceEstimation

open Scalar

variable {α β : Type} [Scalar α]

/-- A coefficient as it is stored, not at all if it is zero. -/
def Scalar.stored (a : α) : Option α :=
  if isZero a then none else some a

namespace Terms

section Stored

variable {R S T : α → α → Prop} {a a' b b' : Option α}

omit [Scalar α] in
theorem rel_none_iff (h : Option.Rel R a b) : a = none ↔ b = none := by
  cases h with
  | some => simp
  | none => simp

omit [Scalar α] in
theorem rel_map {f g : α → α} (hf : ∀ a b, R a b → S (f a) (g b)) (h : Option.Rel R a b) :
    Option.Rel S (a.map f) (b.map g) := by
  cases h with
  | some h => exact .some (hf _ _ h)
  | none => exact .none

omit [Scalar α] in
theorem rel_map₂ {f : α → α → α} (hf : ∀ a a' b b', R a a' → S b b' → T (f a b) (f a' b'))
    (h : Option.Rel R a a') (h' : Option.Rel S b b') :
    Option.Rel T (Option.map₂ f a b) (Option.map₂ f a' b') := by
  cases h with
  | none => exact .none
  | some h =>
    cases h' with
    | none => exact .none
    | some h' => exact .some (hf _ _ _ _ h h')

end Stored

section Keys

variable {κ : Type} [Key κ] {t u x : Terms κ α} {k j : κ}

/-- The stored coefficient after a term was added to it, if there is one. -/
def accumulate (old : Option α) : Option α → Option α
  | none => old
  | some a => stored (old.getD 0 + a)

omit [Scalar α] in
theorem lookup_cons_eq (j : κ) (b : α) (t : Terms κ α) (k : κ) :
    ((j, b) :: t).lookup k = if k = j then some b else t.lookup k := by
  rw [List.lookup_cons]
  by_cases h : k = j
  · simp [h]
  · simp [beq_false_of_ne h, h]

omit [Scalar α] in
theorem lookup_eq_none (h : ∀ term ∈ t, term.1 ≠ k) : t.lookup k = none := by
  rw [List.lookup_eq_none_iff]
  intro term hTerm
  simpa using (h term hTerm).symm

omit [Scalar α] in
theorem lookup_eq_none_of_lt (h : ∀ term ∈ t, k < term.1) : t.lookup k = none :=
  lookup_eq_none fun term hTerm hKey => Key.lt_irrefl k (hKey ▸ h term hTerm)

theorem lookup_consNonzero (h : ∀ term ∈ t, k < term.1) (a : α) (j : κ) :
    (consNonzero k a t).lookup j = if j = k then stored a else t.lookup j := by
  unfold consNonzero stored
  split
  · split
    · rename_i hKey
      rw [hKey, lookup_eq_none_of_lt h]
    · rfl
  · exact lookup_cons_eq k a t j

theorem lookup_add (ht : t.Canonical) (k : κ) (a : α) (j : κ) :
    (add k a t).lookup j = if j = k then accumulate (t.lookup k) (some a) else t.lookup j := by
  induction t with
  | nil => exact lookup_consNonzero (by simp) _ _
  | cons head t ih =>
    obtain ⟨i, b⟩ := head
    obtain ⟨hBelow, -, hTail⟩ := canonical_cons_iff.mp ht
    simp only [add, addThen, id]
    split
    · rename_i hLess
      have hAbove : ∀ term ∈ (i, b) :: t, k < term.1 :=
        List.forall_mem_cons.mpr ⟨hLess, fun term hTerm => Key.lt_trans _ _ _ hLess
          (hBelow term hTerm)⟩
      rw [lookup_consNonzero hAbove, lookup_eq_none_of_lt hAbove]
      rfl
    · split
      · rename_i hSame
        rw [lookup_consNonzero (hSame ▸ hBelow), lookup_cons_eq, lookup_cons_eq, if_pos hSame]
        split
        · rfl
        · rename_i hOther
          rw [if_neg fun hKey => hOther (hKey.trans hSame.symm)]
      · rename_i hDifferent
        have hRest := ih hTail
        simp only [add] at hRest
        rw [lookup_cons_eq, lookup_cons_eq, lookup_cons_eq, if_neg hDifferent, hRest]
        split
        · rename_i hHead
          rw [if_neg fun hKey => hDifferent (hKey.symm.trans hHead)]
        · rfl

theorem lookup_axpy (ht : t.Canonical) (hx : x.Canonical) (c : α) (k : κ) :
    (t.axpy c x).lookup k = accumulate (t.lookup k) ((x.lookup k).map (c * ·)) := by
  rw [axpy_eq_foldl_add hx.ascending]
  induction x generalizing t with
  | nil => rfl
  | cons head x ih =>
    obtain ⟨j, a⟩ := head
    obtain ⟨hBelow, -, hTail⟩ := canonical_cons_iff.mp hx
    rw [List.foldl_cons, ih (ht.add _ _) hTail, lookup_add ht, lookup_cons_eq]
    split
    · rename_i hKey
      rw [hKey, lookup_eq_none_of_lt hBelow]
      rfl
    · rfl

theorem lookup_filter_nonzero (ht : t.Canonical) (c : α) (k : κ) :
    ((t.map fun (i, a) => (i, c * a)).filter fun (_, a) => !isZero a).lookup k =
      (t.lookup k).bind fun a => stored (c * a) := by
  induction t with
  | nil => rfl
  | cons head t ih =>
    obtain ⟨j, b⟩ := head
    obtain ⟨hBelow, -, hTail⟩ := canonical_cons_iff.mp ht
    have hCons : (((j, b) :: t).map fun (i, a) => (i, c * a)).filter (fun (_, a) => !isZero a) =
        consNonzero j (c * b)
          ((t.map fun (i, a) => (i, c * a)).filter fun (_, a) => !isZero a) := by
      unfold consNonzero
      cases hZero : isZero (c * b) with
      | true => simp [hZero]
      | false => simp [hZero]
    rw [hCons, lookup_consNonzero ?_, ih hTail, lookup_cons_eq]
    · split
      · rfl
      · rfl
    · intro term hTerm
      obtain ⟨old, hOld, rfl⟩ := List.mem_map.mp (List.mem_filter.mp hTerm).1
      exact hBelow old hOld

omit [Scalar α] in
theorem mem_of_lookup {a : α} (h : t.lookup k = some a) : (k, a) ∈ t := by
  obtain ⟨before, after, rfl, -⟩ := List.lookup_eq_some_iff.mp h
  simp

theorem forall₂_of_lookup {R : α → α → Prop} (ht : t.Canonical) (hu : u.Canonical)
    (h : ∀ k, Option.Rel R (t.lookup k) (u.lookup k)) :
    List.Forall₂ (fun p q => p.1 = q.1 ∧ R p.2 q.2) t u := by
  induction t generalizing u with
  | nil =>
    cases u with
    | nil => exact .nil
    | cons head u =>
      have hHead := h head.1
      rw [lookup_cons_eq, if_pos rfl] at hHead
      cases hHead
  | cons head t ih =>
    obtain ⟨k, a⟩ := head
    obtain ⟨hBelow, -, hTail⟩ := canonical_cons_iff.mp ht
    cases u with
    | nil =>
      have hHead := h k
      rw [lookup_cons_eq, if_pos rfl] at hHead
      cases hHead
    | cons other u =>
      obtain ⟨j, b⟩ := other
      obtain ⟨hBelow', -, hTail'⟩ := canonical_cons_iff.mp hu
      -- the least key of either list is a key of the other one
      have hNotLess {i l : κ} {c d : α} {v w : Terms κ α} (hw : ∀ term ∈ w, l < term.1)
          (hLess : i < l) (hRel : ((i, c) :: v).lookup i = none ↔ ((l, d) :: w).lookup i = none) :
          False := by
        have hAbsent : ((l, d) :: w).lookup i = none := lookup_eq_none_of_lt <|
          List.forall_mem_cons.mpr ⟨hLess, fun term hTerm => Key.lt_trans _ _ _ hLess
            (hw term hTerm)⟩
        rw [hAbsent, lookup_cons_eq, if_pos rfl] at hRel
        simp at hRel
      have hKey : k = j := by
        by_contra hDifferent
        by_cases hLess : k < j
        · exact hNotLess hBelow' hLess (rel_none_iff (h k))
        · exact hNotLess hBelow (Key.lt_of_not_lt_of_ne _ _ hLess hDifferent)
            (rel_none_iff (h j)).symm
      subst hKey
      have hHead := h k
      rw [lookup_cons_eq, lookup_cons_eq, if_pos rfl, if_pos rfl] at hHead
      refine .cons ⟨rfl, Option.rel_some_some.mp hHead⟩ (ih hTail hTail' fun i => ?_)
      have hRest := h i
      rw [lookup_cons_eq, lookup_cons_eq] at hRest
      by_cases hSame : i = k
      · rw [hSame, lookup_eq_none_of_lt hBelow, lookup_eq_none_of_lt hBelow']
        exact .none
      · rwa [if_neg hSame, if_neg hSame] at hRest

end Keys

section Folds

variable {κ : Type} [Key κ] {p : Terms κ α} {act : β → κ × α → β}

theorem foldl_eq_of_one (hp : p.Canonical) {s : κ}
    (h : ∀ term ∈ p, term.1 ≠ s → ∀ b, act b term = b) (b : β) :
    p.foldl act b = (p.lookup s).elim b fun c => act b (s, c) := by
  induction p generalizing b with
  | nil => rfl
  | cons head p ih =>
    obtain ⟨i, c⟩ := head
    obtain ⟨hHead, hTail⟩ := List.forall_mem_cons.mp h
    obtain ⟨hBelow, -, hRest⟩ := canonical_cons_iff.mp hp
    rw [List.foldl_cons, ih hRest hTail, lookup_cons_eq]
    by_cases hSame : s = i
    · rw [if_pos hSame, hSame, lookup_eq_none_of_lt hBelow]
      rfl
    · rw [if_neg hSame, hHead (Ne.symm hSame)]

/-- Of two keys the smaller one acts first. -/
theorem foldl_eq_of_two (hp : p.Canonical) {r s : κ} (hLess : r < s)
    (h : ∀ term ∈ p, term.1 ≠ r → term.1 ≠ s → ∀ b, act b term = b) (b : β) :
    p.foldl act b = (p.lookup s).elim ((p.lookup r).elim b fun c => act b (r, c))
      fun c => act ((p.lookup r).elim b fun c => act b (r, c)) (s, c) := by
  induction p generalizing b with
  | nil => rfl
  | cons head p ih =>
    obtain ⟨i, c⟩ := head
    obtain ⟨hHead, hTail⟩ := List.forall_mem_cons.mp h
    obtain ⟨hBelow, -, hRest⟩ := canonical_cons_iff.mp hp
    have hLater {j l : κ} (hLess : j < l) : j ≠ l := fun hSame => Key.lt_irrefl l (hSame ▸ hLess)
    rw [List.foldl_cons, lookup_cons_eq, lookup_cons_eq]
    by_cases hFirst : r = i
    · subst hFirst
      rw [if_pos rfl, if_neg (hLater hLess).symm]
      exact foldl_eq_of_one hRest
        (fun term hTerm => hTail term hTerm (hLater (hBelow term hTerm)).symm) _
    · rw [if_neg hFirst]
      by_cases hSecond : s = i
      · subst hSecond
        have hAbove (term : κ × α) (hTerm : term ∈ p) : r < term.1 :=
          Key.lt_trans _ _ _ hLess (hBelow term hTerm)
        rw [if_pos rfl, lookup_eq_none_of_lt hAbove,
          foldl_eq_of_one hRest fun term hTerm =>
            hTail term hTerm (hLater (hAbove term hTerm)).symm,
          lookup_eq_none_of_lt hBelow]
        rfl
      · rw [if_neg hSecond, hHead (Ne.symm hFirst) (Ne.symm hSecond), ih hRest hTail]

end Folds

end Terms

theorem BasisPair.eq_of_iff {r s i j : BasisIndex} (hUpper : r ≤ s) :
    (⟨r, s⟩ : BasisPair) = of i j ↔ i = r ∧ j = s ∨ i = s ∧ j = r := by
  obtain ⟨r⟩ := r
  obtain ⟨s⟩ := s
  obtain ⟨i⟩ := i
  obtain ⟨j⟩ := j
  simp only [of, BasisIndex.le_iff] at *
  grind

namespace Point

open Terms

variable {p q : Point α} {r s : BasisIndex}

omit [Scalar α] in
/-- The products of one basis vector, read at an entry of the upper triangle. -/
theorem lookup_row (hUpper : r ≤ s) (q : Terms BasisIndex α) (i : BasisIndex) :
    (q.map fun (j, a) => (BasisPair.of i j, a)).lookup ⟨r, s⟩ =
      if i = r then q.lookup s else if i = s then q.lookup r else none := by
  induction q with
  | nil => simp
  | cons head q ih =>
    obtain ⟨j, a⟩ := head
    rw [List.map_cons, lookup_cons_eq, ih, lookup_cons_eq, lookup_cons_eq]
    simp only [BasisPair.eq_of_iff hUpper]
    grind

theorem lookup_scale (hp : p.Canonical) {c : α} (hc : Scalar.isZero c = false) (i : BasisIndex) :
    (p.scale c).terms.lookup i = (p.terms.lookup i).bind fun a => stored (c * a) := by
  rw [Point.scale, if_neg (by simp [hc])]
  exact lookup_filter_nonzero hp c i

/-- The product of two stored coefficients, if both points have one. -/
def product (p q : Point α) (i j : BasisIndex) : Option α :=
  Option.map₂ (· * ·) (p.terms.lookup i) (q.terms.lookup j)

theorem accumulate_product (p q : Point α) (i j : BasisIndex) (old : Option α) :
    ((p.terms.lookup i).elim old fun c => accumulate old ((q.terms.lookup j).map (c * ·))) =
      accumulate old (p.product q i j) := by
  unfold product
  cases p.terms.lookup i with
  | none => rfl
  | some c => cases q.terms.lookup j <;> rfl

theorem lookup_inner (hq : q.Canonical) (pair : BasisPair) : (p.inner q).gram.lookup pair =
    p.terms.foldl (fun old term => accumulate old
      (((q.terms.map fun (j, a) => (BasisPair.of term.1 j, a)).lookup pair).map (term.2 * ·)))
      none := by
  have hRows (ps : Terms BasisIndex α) {t : Terms BasisPair α} (ht : t.Canonical) :
      (ps.foldl (fun t (i, c) => t.axpy c (q.terms.map fun (j, a) => (BasisPair.of i j, a)))
        t).lookup pair = ps.foldl (fun old term => accumulate old
          (((q.terms.map fun (j, a) => (BasisPair.of term.1 j, a)).lookup pair).map (term.2 * ·)))
          (t.lookup pair) := by
    induction ps generalizing t with
    | nil => rfl
    | cons head ps ih =>
      obtain ⟨i, c⟩ := head
      have hRow := (hq.row i c).gram
      rw [List.foldl_cons, List.foldl_cons, ih (ht.axpy c hRow), lookup_axpy ht hRow]
  exact hRows p.terms canonical_nil

/-- An entry off the diagonal takes the product with the earlier vector of the first factor before
that with the later one. -/
theorem lookup_inner_of_lt (hp : p.Canonical) (hq : q.Canonical) (hLess : r < s) :
    (p.inner q).gram.lookup ⟨r, s⟩ =
      accumulate (accumulate none (p.product q r s)) (p.product q s r) := by
  have hDistinct : s ≠ r := fun hSame => Key.lt_irrefl r (hSame ▸ hLess)
  rw [lookup_inner hq]
  simp only [lookup_row (Nat.le_of_lt hLess)]
  rw [foldl_eq_of_two hp hLess fun term _ hFirst hSecond old => by
    rw [if_neg hFirst, if_neg hSecond]
    rfl]
  simp only [if_pos, if_neg hDistinct, accumulate_product]

theorem lookup_inner_diagonal (hp : p.Canonical) (hq : q.Canonical) (r : BasisIndex) :
    (p.inner q).gram.lookup ⟨r, r⟩ = accumulate none (p.product q r r) := by
  rw [lookup_inner hq]
  simp only [lookup_row (Nat.le_refl r.pos)]
  rw [foldl_eq_of_one hp fun term _ hOther old => by
    rw [if_neg hOther, if_neg hOther]
    rfl]
  simp only [if_pos, accumulate_product]

theorem lookup_inner_of_gt (p : Point α) (hq : q.Canonical) (hLess : s < r) :
    (p.inner q).gram.lookup ⟨r, s⟩ = none := by
  refine lookup_eq_none fun term hTerm hKey => ?_
  have hUpper := (Canonical.inner p hq).upper term hTerm
  rw [hKey] at hUpper
  exact Nat.not_le_of_lt hLess hUpper

end Point

end PerformanceEstimation
