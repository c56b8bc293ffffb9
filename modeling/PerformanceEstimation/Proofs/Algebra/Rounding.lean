import Mathlib
import PerformanceEstimation.Proofs.Algebra.Lookups

/-!
# Symmetry under rounding

Some symmetries of the symbols need none of the laws that rounding breaks. `Scalar.SignExact` asks
of an arithmetic that its operations treat the signs alike and commute, up to values that are equal
or both no number. Then inner products are symmetric (`Point.inner_comm`), exchanging the operands
of a difference changes all signs (`Point.sub_opposite`), and a product of two differences is the
same after the exchange (`Point.Opposite.inner`). Since sums do not associate, these are statements
on the one or two terms that each coefficient is the sum of.
-/

set_option autoImplicit false

namespace PerformanceEstimation

variable {α : Type} [Scalar α]

namespace Scalar

/-- The two values are equal, or neither of them is a number. -/
def Alike (a b : α) : Prop :=
  (a == b) = true ∨ isNumber a = false ∧ isNumber b = false

/-- An arithmetic that may round, but in the same way on either side of zero and in either order of
the operands. Nothing is said about associativity and distributivity, and values that are equal,
such as zero and its negative, need not be the same. One is not zero, since a multiple by zero has
no terms at all. -/
class SignExact (α : Type) [Scalar α] : Prop extends PartialEquivBEq α where
  add_congr : ∀ {a a' b b' : α}, Alike a a' → Alike b b' → Alike (a + b) (a' + b')
  mul_congr : ∀ {a a' b b' : α}, Alike a a' → Alike b b' → Alike (a * b) (a' * b')
  neg_congr : ∀ {a a' : α}, Alike a a' → Alike (-a) (-a')
  add_comm : ∀ a b : α, Alike (a + b) (b + a)
  mul_comm : ∀ a b : α, Alike (a * b) (b * a)
  zero_add : ∀ a : α, Alike (0 + a) a
  neg_one_mul : ∀ a : α, Alike (-1 * a) (-a)
  neg_neg : ∀ a : α, Alike (- -a) a
  neg_zero : Alike (-0 : α) 0
  neg_add : ∀ a b : α, Alike (-a + b) (-(a + -b))
  neg_mul_neg : ∀ a b : α, Alike (-a * -b) (a * b)
  one_ne_zero : isZero (1 : α) = false

section Alike

variable [SignExact α] {a b c : α}

omit [SignExact α] in
theorem Alike.refl (a : α) : Alike a a := by
  cases h : isNumber a with
  | true => exact .inl h
  | false => exact .inr ⟨h, h⟩

theorem Alike.symm (h : Alike a b) : Alike b a :=
  h.imp BEq.symm And.symm

theorem isNumber_congr (h : Alike a b) : isNumber a = isNumber b := by
  rcases h with hEqual | ⟨ha, hb⟩
  · have ha : isNumber a = true := BEq.trans hEqual (BEq.symm hEqual)
    have hb : isNumber b = true := BEq.trans (BEq.symm hEqual) hEqual
    rw [ha, hb]
  · rw [ha, hb]

theorem Alike.trans (h : Alike a b) (h' : Alike b c) : Alike a c := by
  rcases h with hEqual | ⟨ha, hb⟩
  · rcases h' with hEqual' | ⟨hb, hc⟩
    · exact .inl (BEq.trans hEqual hEqual')
    · exact .inr ⟨(isNumber_congr (.inl hEqual)).trans hb, hc⟩
  · exact .inr ⟨ha, (isNumber_congr h').symm.trans hb⟩

omit [SignExact α] in
theorem Alike.beq (h : Alike a b) (ha : isNumber a = true) : (a == b) = true := by
  rcases h with hEqual | ⟨ha', -⟩
  · exact hEqual
  · rw [ha] at ha'
    cases ha'

theorem isZero_congr (h : Alike a b) : isZero a = isZero b := by
  have hZero {a b : α} (h : Alike a b) (ha : isZero a = true) : isZero b = true := by
    have hNumber : isNumber a = true := BEq.trans ha (BEq.symm ha)
    exact BEq.trans (BEq.symm (h.beq hNumber)) ha
  exact Bool.eq_iff_iff.mpr ⟨hZero h, hZero h.symm⟩

theorem isZero_neg (a : α) : isZero (-a) = isZero a := by
  have hZero (a : α) (ha : isZero a = true) : isZero (-a) = true := by
    have hNegative : Alike (-a) 0 := (SignExact.neg_congr (.inl ha)).trans SignExact.neg_zero
    have hNumber : isNumber (0 : α) = true := BEq.trans (BEq.symm ha) ha
    exact BEq.symm (hNegative.symm.beq hNumber)
  refine Bool.eq_iff_iff.mpr ⟨fun h => ?_, hZero a⟩
  rw [← isZero_congr (SignExact.neg_neg a)]
  exact hZero _ h

theorem isZero_neg_one : isZero (-1 : α) = false :=
  (isZero_neg 1).trans SignExact.one_ne_zero

theorem stored_congr (h : Alike a b) : Option.Rel Alike (stored a) (stored b) := by
  unfold stored
  rw [isZero_congr h]
  split
  · exact .none
  · exact .some h

theorem getD_stored (a : α) : Alike ((stored a).getD 0) a := by
  unfold stored
  split
  · rename_i hZero
    exact .inl (BEq.symm hZero)
  · exact .refl a

omit [SignExact α] in
theorem getD_congr {a b : Option α} (h : Option.Rel Alike a b) : Alike (a.getD 0) (b.getD 0) := by
  cases h with
  | some h => exact h
  | none => exact .refl 0

end Alike

end Scalar

open Scalar

namespace Terms

/-- The same keys are stored, with coefficients that are related. -/
def Rel {κ : Type} [Key κ] (R : α → α → Prop) (t u : Terms κ α) : Prop :=
  ∀ k, Option.Rel R (t.lookup k) (u.lookup k)

section Accumulate

variable {old old' a b : Option α}

theorem rel_refl (a : Option α) : Option.Rel Alike a a := by
  cases a with
  | none => exact .none
  | some a => exact .some (.refl a)

variable [SignExact α]

theorem rel_trans {c : Option α} (h : Option.Rel Alike a b) (h' : Option.Rel Alike b c) :
    Option.Rel Alike a c := by
  cases h with
  | none => exact h'
  | some h =>
    cases h' with
    | some h' => exact .some (h.trans h')

theorem accumulate_congr (hOld : Option.Rel Alike old old') (h : Option.Rel Alike a b) :
    Option.Rel Alike (accumulate old a) (accumulate old' b) := by
  cases h with
  | none => exact hOld
  | some h => exact stored_congr (SignExact.add_congr (getD_congr hOld) h)

/-- Two terms are added in either order, also if the first sum is zero and not stored. -/
theorem accumulate_comm (a b : Option α) : Option.Rel Alike
    (accumulate (accumulate none a) b) (accumulate (accumulate none b) a) := by
  cases a with
  | none => exact rel_refl _
  | some a =>
    cases b with
    | none => exact rel_refl _
    | some b =>
      have hSum (a b : α) : Alike ((stored (0 + a)).getD 0 + b) (a + b) :=
        SignExact.add_congr ((getD_stored _).trans (SignExact.zero_add a)) (.refl b)
      exact stored_congr ((hSum a b).trans ((SignExact.add_comm a b).trans (hSum b a).symm))

end Accumulate

section Relations

variable {κ : Type} [Key κ] {t t' x x' : Terms κ α} {R : α → α → Prop}

omit [Scalar α] in
theorem Rel.isEmpty_eq (h : Rel R t x) : t.isEmpty = x.isEmpty := by
  cases t with
  | nil =>
    cases x with
    | nil => rfl
    | cons head x => simpa [lookup_cons_eq] using rel_none_iff (h head.1)
  | cons head t =>
    cases x with
    | nil => simpa [lookup_cons_eq] using rel_none_iff (h head.1)
    | cons other x => rfl

theorem isZero_of_lookup (ht : t.Canonical) {k : κ} {a : α} (h : t.lookup k = some a) :
    isZero a = false :=
  ht.nonzero (k, a) (mem_of_lookup h)

theorem stored_of_lookup (ht : t.Canonical) {k : κ} {a : α} (h : t.lookup k = some a) :
    stored a = some a := by
  rw [stored, isZero_of_lookup ht h]
  rfl

/-- A combination of numbers is equal to one that is alike. -/
theorem Rel.beq [BEq κ] [ReflBEq κ] (ht : t.Canonical) (hx : x.Canonical)
    (h : Rel Scalar.Alike t x) (hNumbers : (t == t) = true) : (t == x) = true := by
  have hTerms := forall₂_of_lookup ht hx h
  clear ht hx h
  induction hTerms with
  | nil => rfl
  | @cons p q t x hHead _ ih =>
    obtain ⟨k, a⟩ := p
    obtain ⟨j, b⟩ := q
    obtain ⟨rfl, hAlike⟩ := hHead
    rw [List.cons_beq_cons, Bool.and_eq_true] at hNumbers ⊢
    obtain ⟨hFirst, hRest⟩ := hNumbers
    have hNumber : isNumber a = true := (Bool.and_eq_true_iff.mp hFirst).2
    exact ⟨Bool.and_eq_true_iff.mpr ⟨BEq.rfl, hAlike.beq hNumber⟩, ih hRest⟩

variable [SignExact α]

theorem Rel.axpy (ht : t.Canonical) (ht' : t'.Canonical) (hx : x.Canonical) (hx' : x'.Canonical)
    (h : Rel Scalar.Alike t t') (h' : Rel Scalar.Alike x x') (c : α) :
    Rel Scalar.Alike (t.axpy c x) (t'.axpy c x') := by
  intro k
  rw [lookup_axpy ht hx, lookup_axpy ht' hx']
  exact accumulate_congr (h k) (rel_map (fun _ _ h => SignExact.mul_congr (.refl c) h) (h' k))

end Relations

end Terms

namespace Expression

/-- Two expressions in canonical form that are the same up to coefficients which are alike. -/
structure Alike (e f : Expression α) : Prop where
  left : e.Canonical
  right : f.Canonical
  values : Terms.Rel Scalar.Alike e.values f.values
  gram : Terms.Rel Scalar.Alike e.gram f.gram
  constant : e.constant = f.constant

namespace Alike

variable {e e' x x' : Expression α}

theorem refl (he : e.Canonical) : e.Alike e :=
  ⟨he, he, fun _ => Terms.rel_refl _, fun _ => Terms.rel_refl _, rfl⟩

theorem isConstant_eq (h : e.Alike e') : e.isConstant = e'.isConstant := by
  rw [isConstant, isConstant, h.values.isEmpty_eq, h.gram.isEmpty_eq]

theorem beq (h : e.Alike e') (hNumbers : (e == e) = true) : (e == e') = true := by
  obtain ⟨hLinear, hConstant⟩ := Bool.and_eq_true_iff.mp hNumbers
  obtain ⟨hValues, hGram⟩ := Bool.and_eq_true_iff.mp hLinear
  have hSameValues := h.values.beq h.left.values h.right.values hValues
  have hSameGram := h.gram.beq h.left.gram h.right.gram hGram
  rw [h.constant] at hConstant
  refine Bool.and_eq_true_iff.mpr ⟨Bool.and_eq_true_iff.mpr ⟨hSameValues, hSameGram⟩, ?_⟩
  rwa [h.constant]

variable [SignExact α]

theorem axpy (h : e.Alike e') (c : α) (h' : x.Alike x') : (e.axpy c x).Alike (e'.axpy c x') where
  left := h.left.axpy c h'.left
  right := h.right.axpy c h'.right
  values := h.values.axpy h.left.values h.right.values h'.left.values h'.right.values h'.values c
  gram := h.gram.axpy h.left.gram h.right.gram h'.left.gram h'.right.gram h'.gram c
  constant := by
    simp only [Expression.axpy, h.constant, h'.constant]

theorem sub (h : e.Alike e') (h' : x.Alike x') : (e - x).Alike (e' - x') :=
  h.axpy _ h'

theorem mul (c : α) (h : e.Alike e') : (c * e).Alike (c * e') :=
  (refl (canonical_const _)).axpy c h

end Alike

end Expression

namespace Point

open Terms

variable {p q p' q' : Point α}

/-- Inner products agree at every entry if the sums of products do that an entry is made of. -/
theorem rel_inner {R : α → α → Prop} (hp : p.Canonical) (hp' : p'.Canonical) (hq : q.Canonical)
    (hq' : q'.Canonical)
    (hDiagonal : ∀ r, Option.Rel R (accumulate none (p.product q r r))
      (accumulate none (p'.product q' r r)))
    (h : ∀ r s, Option.Rel R (accumulate (accumulate none (p.product q r s)) (p.product q s r))
      (accumulate (accumulate none (p'.product q' r s)) (p'.product q' s r))) :
    Rel R (p.inner q).gram (p'.inner q').gram := by
  rintro ⟨r, s⟩
  by_cases hLess : r < s
  · rw [lookup_inner_of_lt hp hq hLess, lookup_inner_of_lt hp' hq' hLess]
    exact h r s
  · by_cases hSame : r = s
    · subst hSame
      rw [lookup_inner_diagonal hp hq, lookup_inner_diagonal hp' hq']
      exact hDiagonal r
    · have hGreater := Key.lt_of_not_lt_of_ne _ _ hLess hSame
      rw [lookup_inner_of_gt p hq hGreater, lookup_inner_of_gt p' hq' hGreater]
      exact .none

variable [SignExact α]

theorem rel_product_comm (p q : Point α) (i j : BasisIndex) :
    Option.Rel Scalar.Alike (p.product q i j) (q.product p j i) := by
  unfold product
  cases p.terms.lookup i with
  | none =>
    rw [Option.map₂_none_left, Option.map₂_none_right]
    exact .none
  | some a =>
    cases q.terms.lookup j with
    | none => exact .none
    | some b => exact .some (SignExact.mul_comm a b)

theorem inner_comm (hp : p.Canonical) (hq : q.Canonical) : (p.inner q).Alike (q.inner p) where
  left := hq.inner p
  right := hp.inner q
  values _ := .none
  gram := by
    refine rel_inner hp hq hq hp
      (fun r => accumulate_congr .none (rel_product_comm p q r r)) fun r s => ?_
    -- the two products come in the opposite order, each with its factors exchanged
    exact rel_trans (accumulate_comm _ _) (accumulate_congr
      (accumulate_congr .none (rel_product_comm p q s r)) (rel_product_comm p q r s))
  constant := rfl

/-- Two points in canonical form of which one has the coefficients of the other with the signs
changed. -/
structure Opposite (p q : Point α) : Prop where
  left : p.Canonical
  right : q.Canonical
  terms : Rel (fun a b => Scalar.Alike b (-a)) p.terms q.terms

theorem sub_opposite (hp : p.Canonical) (hq : q.Canonical) : (p - q).Opposite (q - p) where
  left := hp.sub hq
  right := hq.sub hp
  terms := by
    have hStored {a b : α} (h : Scalar.Alike b (-a)) :
        Option.Rel (fun a b => Scalar.Alike b (-a)) (stored a) (stored b) := by
      unfold stored
      rw [isZero_congr h, Scalar.isZero_neg]
      split
      · exact .none
      · exact .some h
    intro k
    change Option.Rel _ ((p.terms.axpy (-1) q.terms).lookup k)
      ((q.terms.axpy (-1) p.terms).lookup k)
    rw [lookup_axpy hp hq, lookup_axpy hq hp]
    -- a coefficient of one point alone is stored there, and so is its negative after the exchange
    cases hFirst : p.terms.lookup k with
    | none =>
      cases hSecond : q.terms.lookup k with
      | none => exact .none
      | some b =>
        have hNegative : Scalar.Alike (-b) (0 + -1 * b) :=
          ((SignExact.zero_add _).trans (SignExact.neg_one_mul b)).symm
        have hRel := hStored ((SignExact.neg_neg b).symm.trans (SignExact.neg_congr hNegative))
        rwa [stored_of_lookup hq hSecond] at hRel
    | some a =>
      cases hSecond : q.terms.lookup k with
      | none =>
        have hRel := hStored ((SignExact.zero_add _).trans (SignExact.neg_one_mul a))
        rwa [stored_of_lookup hp hFirst] at hRel
      | some b =>
        have hLeft : Scalar.Alike (b + -1 * a) (-a + b) :=
          (SignExact.add_congr (.refl b) (SignExact.neg_one_mul a)).trans
            (SignExact.add_comm b (-a))
        have hRight : Scalar.Alike (a + -b) (a + -1 * b) :=
          SignExact.add_congr (.refl a) (SignExact.neg_one_mul b).symm
        exact hStored
          (hLeft.trans ((SignExact.neg_add a b).trans (SignExact.neg_congr hRight)))

theorem rel_neg_sub (hp : p.Canonical) (hq : q.Canonical) :
    Rel Scalar.Alike (q - p).terms (-(p - q)).terms := by
  obtain ⟨hSub, -, hTerms⟩ := sub_opposite hp hq
  intro k
  have hRel := hTerms k
  have hNeg : (-(p - q)).terms.lookup k = _ := lookup_scale hSub isZero_neg_one k
  rw [hNeg]
  cases hStored : (p - q).terms.lookup k with
  | none =>
    rw [hStored] at hRel
    rw [(rel_none_iff hRel).mp rfl]
    exact .none
  | some a =>
    rw [hStored] at hRel
    have hNonzero : Scalar.isZero (-1 * a) = false := by
      rw [isZero_congr (SignExact.neg_one_mul a), Scalar.isZero_neg, isZero_of_lookup hSub hStored]
    rw [Option.bind_some, stored, hNonzero]
    generalize (q - p).terms.lookup k = b at hRel ⊢
    cases hRel with
    | some h => exact .some (h.trans (SignExact.neg_one_mul a).symm)

/-- A difference of exchanged operands is the negative, if no coefficient fails to be a number. -/
theorem sub_beq_neg_sub (hp : p.Canonical) (hq : q.Canonical)
    (hNumbers : ((q - p) == (q - p)) = true) : ((q - p) == -(p - q)) = true :=
  (rel_neg_sub hp hq).beq (hq.sub hp) ((hp.sub hq).scale _) hNumbers

theorem Opposite.inner (h : p.Opposite p') (h' : q.Opposite q') :
    (p.inner q).Alike (p'.inner q') where
  left := h'.left.inner p
  right := h'.right.inner p'
  values _ := .none
  gram := by
    have hProduct (i j : BasisIndex) :
        Option.Rel Scalar.Alike (p.product q i j) (p'.product q' i j) :=
      rel_map₂ (fun a a' b b' ha hb =>
        ((SignExact.mul_congr ha hb).trans (SignExact.neg_mul_neg a b)).symm)
        (h.terms i) (h'.terms j)
    exact rel_inner h.left h.right h'.left h'.right
      (fun r => accumulate_congr .none (hProduct r r))
      fun r s => accumulate_congr (accumulate_congr .none (hProduct r s)) (hProduct s r)
  constant := rfl

end Point

/-- A rounding of exact results, in the same way on either side of zero. -/
structure Rounding where
  round : ℚ → ℚ
  round_round : ∀ x, round (round x) = round x
  round_neg : ∀ x, round (-x) = -round x
  round_one : round 1 = 1

/-- A number which the rounding leaves as it is. -/
structure Rounding.Number (ρ : Rounding) where
  exact : ℚ
  round_exact : ρ.round exact = exact

namespace Rounding

variable (ρ : Rounding)

def nearest (x : ℚ) : ρ.Number :=
  ⟨ρ.round x, ρ.round_round x⟩

theorem round_zero : ρ.round 0 = 0 := by
  have hNeg := ρ.round_neg 0
  rw [neg_zero] at hNeg
  linarith

instance instScalar : Scalar ρ.Number where
  add a b := ρ.nearest (a.exact + b.exact)
  sub a b := ρ.nearest (a.exact - b.exact)
  mul a b := ρ.nearest (a.exact * b.exact)
  div a b := ρ.nearest (a.exact / b.exact)
  neg a := ⟨-a.exact, by rw [ρ.round_neg, a.round_exact]⟩
  beq a b := decide (a.exact = b.exact)
  lt a b := a.exact < b.exact
  le a b := a.exact ≤ b.exact
  ofNat n := ρ.nearest n
  sqrtTwo := ρ.nearest (7 / 5)
  abs a := ρ.nearest |a.exact|
  isFinite _ := true
  decideLt a b := inferInstanceAs (Decidable (a.exact < b.exact))
  decideLe a b := inferInstanceAs (Decidable (a.exact ≤ b.exact))

variable {ρ} (a b : ρ.Number)

theorem exact_add : (a + b).exact = ρ.round (a.exact + b.exact) := rfl

theorem exact_mul : (a * b).exact = ρ.round (a.exact * b.exact) := rfl

theorem exact_neg : (-a).exact = -a.exact := rfl

theorem exact_zero : (0 : ρ.Number).exact = 0 := by
  change ρ.round ((0 : ℕ) : ℚ) = 0
  rw [Nat.cast_zero, ρ.round_zero]

theorem exact_one : (1 : ρ.Number).exact = 1 := by
  change ρ.round ((1 : ℕ) : ℚ) = 1
  rw [Nat.cast_one, ρ.round_one]

theorem beq_iff {a b : ρ.Number} : (a == b) = true ↔ a.exact = b.exact :=
  decide_eq_true_iff

theorem alike_iff {a b : ρ.Number} : Alike a b ↔ a.exact = b.exact := by
  have hNumber : isNumber a = true := beq_iff.mpr rfl
  rw [Alike, beq_iff, hNumber]
  simp

/-- Rounding the results of exact operations leaves the symmetries of the signs. -/
instance instSignExact : SignExact ρ.Number where
  symm h := beq_iff.mpr (beq_iff.mp h).symm
  trans h h' := beq_iff.mpr ((beq_iff.mp h).trans (beq_iff.mp h'))
  add_congr h h' := by rw [alike_iff, exact_add, exact_add, alike_iff.mp h, alike_iff.mp h']
  mul_congr h h' := by rw [alike_iff, exact_mul, exact_mul, alike_iff.mp h, alike_iff.mp h']
  neg_congr h := by rw [alike_iff, exact_neg, exact_neg, alike_iff.mp h]
  add_comm a b := by rw [alike_iff, exact_add, exact_add, add_comm]
  mul_comm a b := by rw [alike_iff, exact_mul, exact_mul, mul_comm]
  zero_add a := by rw [alike_iff, exact_add, exact_zero, zero_add, a.round_exact]
  neg_one_mul a := by
    rw [alike_iff, exact_mul, exact_neg, exact_neg, exact_one, neg_one_mul, ρ.round_neg,
      a.round_exact]
  neg_neg a := by rw [alike_iff, exact_neg, exact_neg, neg_neg]
  neg_zero := by rw [alike_iff, exact_neg, exact_zero, neg_zero]
  neg_add a b := by
    rw [alike_iff, exact_add, exact_neg, exact_neg, exact_add, exact_neg, ← ρ.round_neg, neg_add,
      neg_neg]
  neg_mul_neg a b := by rw [alike_iff, exact_mul, exact_mul, exact_neg, exact_neg, neg_mul_neg]
  one_ne_zero := by
    rw [isZero, Bool.eq_false_iff, Ne, beq_iff, exact_one, exact_zero]
    exact one_ne_zero

end Rounding

end PerformanceEstimation
