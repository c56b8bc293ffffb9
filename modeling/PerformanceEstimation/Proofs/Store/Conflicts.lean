import Mathlib
import PerformanceEstimation.Proofs.Algebra.NormalForm
import PerformanceEstimation.Proofs.Program.Layout
import PerformanceEstimation.Proofs.Session.Calls

/-!
# Conflicts among equalities

Two equalities on unknowns are in conflict if their linear parts are equal or opposite. In canonical
form that is an equivalence, so a store which is free of conflicts has at most one equality that a
new one is in conflict with. Constraints can be pushed one after the other exactly when no two of
them are in conflict, in whatever order; and of two conflicting equalities one repeats the other, or
nothing satisfies both (`push_conflicts_exact`).
-/

set_option autoImplicit false

namespace PerformanceEstimation

section Parallel

namespace Terms

variable {κ : Type} [Key κ]

theorem Canonical.exists_total_eq {t : Terms κ ℝ} (ht : t.Canonical) (h : t ≠ []) (a : ℝ) :
    ∃ f : κ → ℝ, total f t = a := by
  obtain ⟨⟨k, c⟩, hTerm⟩ := List.exists_mem_of_ne_nil t h
  have hNonzero : c ≠ 0 := by simpa using ht.nonzero _ hTerm
  refine ⟨(a / c) • fun j => if j = k then 1 else 0, ?_⟩
  rw [total_smul, ← coefficient_eq_total ht, coefficient_of_mem ht hTerm,
    div_mul_cancel₀ a hNonzero]

end Terms

/-- The two entries of each pair of basis vectors are equal. -/
def SymmetricEntries (gram : BasisPair → ℝ) : Prop :=
  ∀ i j, gram ⟨i, j⟩ = gram ⟨j, i⟩

namespace Expression

/-- The linear parts are equal or opposite. -/
def Parallel (e f : Expression ℝ) : Prop :=
  e.linearPart = f.linearPart ∨ e.linearPart = -f.linearPart

variable {e f g : Expression ℝ}

theorem Canonical.linearPart (he : e.Canonical) : e.linearPart.Canonical :=
  ⟨he.values, he.gram, he.upper⟩

theorem Canonical.neg_involutive (he : e.Canonical) : -(-e) = e := by
  have hNeg : (-(-e)).Canonical := (he.scale _).scale _
  refine hNeg.eq_of_forall_eval_eq (E := ℝ) he fun r => ?_
  rw [r.eval_neg, r.eval_neg, neg_neg]

theorem Parallel.symm (hf : f.Canonical) (h : e.Parallel f) : f.Parallel e := by
  rcases h with hEqual | hOpposite
  · exact .inl hEqual.symm
  · exact .inr (by rw [hOpposite, hf.linearPart.neg_involutive])

theorem Parallel.trans (hg : g.Canonical) (h : e.Parallel f) (h' : f.Parallel g) :
    e.Parallel g := by
  rcases h with hEqual | hOpposite
  · rwa [Parallel, hEqual]
  · rcases h' with hEqual' | hOpposite'
    · exact .inr (hEqual' ▸ hOpposite)
    · refine .inl ?_
      rw [hOpposite, hOpposite', hg.linearPart.neg_involutive]

theorem isConstant_neg (h : e.isConstant = true) : (-e).isConstant = true := by
  rw [isConstant, Bool.and_eq_true, List.isEmpty_iff, List.isEmpty_iff] at h
  change (isConstant ((0 : Expression ℝ).axpy _ e)) = true
  rw [isConstant, axpy, h.1, h.2]
  rfl

theorem Parallel.isConstant (hf : f.Canonical) (h : e.Parallel f) (he : e.isConstant = true) :
    f.isConstant = true := by
  rcases h.symm hf with hEqual | hOpposite
  · exact (congrArg Expression.isConstant hEqual).trans he
  · exact (congrArg Expression.isConstant hOpposite).trans (isConstant_neg (e := e.linearPart) he)

section Values

variable (gram : BasisPair → ℝ) (value : ValueIndex → ℝ)

theorem evalAt_linearPart (e : Expression ℝ) :
    e.linearPart.evalAt gram value = e.evalAt gram value - e.constant := by
  simp only [evalAt_eq_total, linearPart, zero_real]
  ring

theorem evalAt_neg (e : Expression ℝ) : (-e).evalAt gram value = -e.evalAt gram value := by
  change ((0 : Expression ℝ).axpy _ e).evalAt gram value = _
  rw [evalAt_axpy, evalAt_of_isConstant gram value rfl, constant_zero, one_real]
  ring

end Values

theorem Canonical.exists_evalAt_eq (he : e.Canonical) (h : e.isConstant = false) (a : ℝ) :
    ∃ gram value, SymmetricEntries gram ∧ e.evalAt gram value = a := by
  by_cases hValues : e.values = []
  · have hGram : e.gram ≠ [] := by
      rintro hGram
      simp [Expression.isConstant, hValues, hGram] at h
    obtain ⟨f, hf⟩ := he.gram.exists_total_eq hGram (a - e.constant)
    refine ⟨fun p => f (BasisPair.of p.row p.col), 0, fun i j => ?_, ?_⟩
    · exact congrArg f (BasisPair.of_comm i j)
    · -- the keys lie in the upper triangle, where nothing is folded
      have hFold : e.gram.total (fun p => f (BasisPair.of p.row p.col)) = e.gram.total f :=
        congrArg List.sum (List.map_congr_left fun term hTerm =>
          congrArg (term.2 * f ·) (BasisPair.of_row_col (he.upper term hTerm)))
      rw [evalAt_eq_total, hFold, hf, hValues, Terms.total_nil]
      ring
  · obtain ⟨f, hf⟩ := he.values.exists_total_eq hValues (a - e.constant)
    refine ⟨0, f, fun _ _ => rfl, ?_⟩
    have hZero : e.gram.total (0 : BasisPair → ℝ) = 0 := by simp [Terms.total]
    rw [evalAt_eq_total, hf, hZero]
    ring

end Expression

end Parallel

section Kinds

variable {e f : Expression ℝ} {kind : ConflictKind}

theorem Store.conflictKind?_eq_none_iff : conflictKind? e f = none ↔ ¬ e.Parallel f := by
  unfold conflictKind? Expression.Parallel
  dsimp only
  simp only [beq_iff_eq]
  split_ifs with hEqual hOpposite <;> simp_all

/-- Up to a sign, parallel expressions differ by a constant, and the kind says whether by zero. -/
theorem Store.exists_sign_of_conflictKind? (h : conflictKind? e f = some kind) :
    ∃ sign : ℝ, sign ≠ 0 ∧
      (∀ gram value, e.evalAt gram value =
        sign * f.evalAt gram value + (e.constant - sign * f.constant)) ∧
      kind = if e.constant = sign * f.constant then .duplicate else .contradictory := by
  unfold conflictKind? at h
  dsimp only at h
  split at h
  · rename_i hEqual
    refine ⟨1, one_ne_zero, fun gram value => ?_, ?_⟩
    · have hValue := congrArg (Expression.evalAt gram value) (eq_of_beq hEqual)
      rw [Expression.evalAt_linearPart, Expression.evalAt_linearPart] at hValue
      linarith
    · simpa using h.symm
  · split at h
    · rename_i hOpposite
      refine ⟨-1, by norm_num, fun gram value => ?_, ?_⟩
      · have hValue := congrArg (Expression.evalAt gram value) (eq_of_beq hOpposite)
        rw [Expression.evalAt_neg, Expression.evalAt_linearPart,
          Expression.evalAt_linearPart] at hValue
        linarith
      · simpa using h.symm
    · cases h

/-- The equality says the same as the other one, or nothing satisfies both. -/
theorem Store.kind_iff_solutions (h : conflictKind? e f = some kind) (hf : f.Canonical)
    (hUnknown : f.isConstant = false) :
    (kind = .duplicate ↔ ∀ gram value, SymmetricEntries gram →
      (e.evalAt gram value = 0 ↔ f.evalAt gram value = 0)) ∧
    (kind = .contradictory ↔ ¬ ∃ gram value, SymmetricEntries gram ∧
      e.evalAt gram value = 0 ∧ f.evalAt gram value = 0) := by
  obtain ⟨sign, hSign, hValue, hKind⟩ := exists_sign_of_conflictKind? h
  obtain ⟨gram₀, value₀, hSymmetric, hSolution⟩ := hf.exists_evalAt_eq hUnknown 0
  by_cases hConstant : e.constant = sign * f.constant
  · rw [if_pos hConstant] at hKind
    have hSame (gram : BasisPair → ℝ) (value : ValueIndex → ℝ) :
        e.evalAt gram value = 0 ↔ f.evalAt gram value = 0 := by
      rw [hValue, hConstant, sub_self, add_zero, mul_eq_zero, or_iff_right hSign]
    refine ⟨iff_of_true hKind fun gram value _ => hSame gram value, iff_of_false ?_ ?_⟩
    · simp [hKind]
    · exact fun hNone =>
        hNone ⟨gram₀, value₀, hSymmetric, (hSame gram₀ value₀).mpr hSolution, hSolution⟩
  · rw [if_neg hConstant] at hKind
    have hApart (gram : BasisPair → ℝ) (value : ValueIndex → ℝ) :
        ¬ (e.evalAt gram value = 0 ∧ f.evalAt gram value = 0) := by
      rintro ⟨he, hf⟩
      rw [hValue, hf, mul_zero, zero_add, sub_eq_zero] at he
      exact hConstant he
    refine ⟨iff_of_false (by simp [hKind]) fun hSame => ?_, iff_of_true hKind ?_⟩
    · exact hApart gram₀ value₀ ⟨(hSame gram₀ value₀ hSymmetric).mpr hSolution, hSolution⟩
    · rintro ⟨gram, value, -, hBoth⟩
      exact hApart gram value hBoth

end Kinds

section Stores

variable {α : Type} [Scalar α]

namespace Store

theorem conflict?_eq_some {s : Store α} {c : Constraint α} {conflict : Conflict}
    (h : s.conflict? c = some conflict) :
    c.isActive .equal = true ∧ conflict.added = ⟨s.size⟩ ∧
      ∃ entry, s.get? conflict.existing = some entry ∧ entry.constraint.sense = .equal ∧
        conflictKind? entry.constraint.lhs c.lhs = some conflict.kind := by
  unfold conflict? at h
  split at h
  · rename_i hActive
    obtain ⟨⟨id, entry⟩, hItem, hFound⟩ := List.exists_of_findSome?_eq_some h
    dsimp only at hFound
    split at hFound
    · rename_i hSense
      obtain ⟨kind, hKind, rfl⟩ := Option.map_eq_some_iff.mp hFound
      exact ⟨hActive, rfl, entry, mem_items_iff.mp hItem, hSense, hKind⟩
    · cases hFound
  · cases h

theorem conflict?_eq_none_iff {s : Store α} {c : Constraint α} : s.conflict? c = none ↔
    (c.isActive .equal = true → ∀ entry ∈ s.entries, entry.constraint.sense = .equal →
      conflictKind? entry.constraint.lhs c.lhs = none) := by
  unfold conflict?
  split
  · rename_i hActive
    rw [List.findSome?_eq_none_iff]
    constructor
    · intro h _ entry hEntry hSense
      obtain ⟨i, hi⟩ := List.mem_iff_getElem?.mp hEntry
      have hItem := h (⟨i⟩, entry) (mem_items_iff.mpr hi)
      simpa [hSense] using hItem
    · rintro h ⟨id, entry⟩ hItem
      dsimp only
      split
      · rename_i hSense
        rw [h hActive entry (List.mem_of_getElem? (mem_items_iff.mp hItem)) hSense]
        rfl
      · rfl
  · rename_i hInactive
    exact iff_of_true rfl fun hActive => (hInactive hActive).elim

theorem push_eq_error_iff {s : Store α} {c : Constraint α} {origin : ConstraintOrigin}
    {conflict : Conflict} : s.push c origin = .error conflict ↔ s.conflict? c = some conflict := by
  unfold push
  cases s.conflict? c with
  | none => simp
  | some other => simp

theorem push_eq_ok_iff {s s' : Store α} {c : Constraint α} {origin : ConstraintOrigin}
    {id : ConstraintId} : s.push c origin = .ok (id, s') ↔
      s.conflict? c = none ∧ id = ⟨s.size⟩ ∧ s' = ⟨s.entries ++ [⟨c, origin⟩]⟩ := by
  unfold push
  cases s.conflict? c with
  | none => simp [eq_comm]
  | some conflict => simp

theorem get?_of_push {s s' : Store α} {c : Constraint α} {origin : ConstraintOrigin}
    {id : ConstraintId} (h : s.push c origin = .ok (id, s')) : s'.get? id = some ⟨c, origin⟩ := by
  obtain ⟨-, rfl, rfl⟩ := push_eq_ok_iff.mp h
  exact List.getElem?_concat_length

/-- The store with all constraints of a list, or the first conflict among them. -/
def pushAll (s : Store α) (entries : List (StoredConstraint α)) : Except Conflict (Store α) :=
  entries.foldlM (fun store entry => (store.push entry.constraint entry.origin).map (·.2)) s

/-- The store after a constraint was offered, which it may refuse. -/
def offer (s : Store α) (entry : StoredConstraint α) : Store α :=
  match s.push entry.constraint entry.origin with
  | .ok (_, s') => s'
  | .error _ => s

def offerAll (s : Store α) (entries : List (StoredConstraint α)) : Store α :=
  entries.foldl offer s

end Store

end Stores

/-- Two equalities on unknowns with linear parts that are equal or opposite. -/
def Constraint.ConflictsWith (c d : Constraint ℝ) : Prop :=
  c.isActive .equal = true ∧ d.isActive .equal = true ∧ c.lhs.Parallel d.lhs

theorem Constraint.conflictsWith_iff {c d : Constraint ℝ} (hd : d.lhs.Canonical)
    (hActive : d.isActive .equal = true) :
    c.ConflictsWith d ↔ c.sense = .equal ∧ c.lhs.Parallel d.lhs := by
  constructor
  · rintro ⟨hc, -, hParallel⟩
    exact ⟨by simp_all [Constraint.isActive], hParallel⟩
  · rintro ⟨hSense, hParallel⟩
    -- what is parallel to unknowns is not constant
    have hUnknown : c.lhs.isConstant = false := by
      by_contra hConstant
      have := hParallel.isConstant hd (by simpa using hConstant)
      simp_all [Constraint.isActive]
    exact ⟨by simp [Constraint.isActive, hSense, hUnknown], hActive, hParallel⟩

namespace Store

section Freedom

variable {s : Store ℝ} {new : StoredConstraint ℝ}

def InForm (s : Store ℝ) : Prop :=
  ∀ entry ∈ s.entries, entry.constraint.lhs.Canonical

def ConflictFree (s : Store ℝ) : Prop :=
  s.entries.Pairwise fun c d => ¬ c.constraint.ConflictsWith d.constraint

/-- Constant equalities are in conflict with nothing, although the store looks at them. -/
theorem conflict?_eq_none_iff_forall (hNew : new.constraint.lhs.Canonical) :
    s.conflict? new.constraint = none ↔
      ∀ entry ∈ s.entries, ¬ entry.constraint.ConflictsWith new.constraint := by
  rw [conflict?_eq_none_iff]
  constructor
  · intro h entry hEntry hConflict
    obtain ⟨hSense, hParallel⟩ := (Constraint.conflictsWith_iff hNew hConflict.2.1).mp hConflict
    exact conflictKind?_eq_none_iff.mp (h hConflict.2.1 entry hEntry hSense) hParallel
  · intro h hActive entry hEntry hSense
    refine conflictKind?_eq_none_iff.mpr fun hParallel => h entry hEntry ?_
    exact (Constraint.conflictsWith_iff hNew hActive).mpr ⟨hSense, hParallel⟩

theorem exists_pushAll_cons_iff {entries : List (StoredConstraint ℝ)} :
    (∃ s', s.pushAll (new :: entries) = .ok s') ↔
      s.conflict? new.constraint = none ∧
        ∃ s', pushAll ⟨s.entries ++ [new]⟩ entries = .ok s' := by
  unfold pushAll
  rw [List.foldlM_cons]
  cases hPush : s.push new.constraint new.origin with
  | error conflict =>
    rw [push_eq_error_iff] at hPush
    simp [Except.map, bind, Except.bind, hPush]
  | ok result =>
    obtain ⟨hNone, -, hStore⟩ := push_eq_ok_iff.mp hPush
    simp [Except.map, bind, Except.bind, hNone, hStore]

theorem exists_pushAll_iff {entries : List (StoredConstraint ℝ)}
    (hForm : ∀ entry ∈ entries, entry.constraint.lhs.Canonical) :
    (∃ s', s.pushAll entries = .ok s') ↔
      (∀ old ∈ s.entries, ∀ entry ∈ entries, ¬ old.constraint.ConflictsWith entry.constraint) ∧
        entries.Pairwise fun c d => ¬ c.constraint.ConflictsWith d.constraint := by
  -- the store grows, so the pairs with what it holds already are part of the statement
  induction entries generalizing s with
  | nil => exact iff_of_true ⟨s, rfl⟩ ⟨fun old hOld entry hEntry => (nomatch hEntry), .nil⟩
  | cons new entries ih =>
    obtain ⟨hNew, hRest⟩ := List.forall_mem_cons.mp hForm
    rw [exists_pushAll_cons_iff, conflict?_eq_none_iff_forall hNew, ih hRest, List.pairwise_cons]
    simp only [List.forall_mem_append, List.forall_mem_cons]
    constructor
    · rintro ⟨hFirst, ⟨hOld, hHead, -⟩, hPairs⟩
      exact ⟨fun old hMem => ⟨hFirst old hMem, hOld old hMem⟩, hHead, hPairs⟩
    · rintro ⟨hOld, hHead, hPairs⟩
      exact ⟨fun old hMem => (hOld old hMem).1,
        ⟨fun old hMem => (hOld old hMem).2, hHead, fun _ hNone => (nomatch hNone)⟩, hPairs⟩

theorem ConflictFree.offer (hs : s.InForm) (hFree : s.ConflictFree)
    (hNew : new.constraint.lhs.Canonical) :
    (s.offer new).InForm ∧ (s.offer new).ConflictFree := by
  unfold Store.offer
  cases hPush : s.push new.constraint new.origin with
  | error conflict => exact ⟨hs, hFree⟩
  | ok result =>
    obtain ⟨hNone, -, hStore⟩ := push_eq_ok_iff.mp hPush
    dsimp only
    rw [hStore]
    constructor
    · exact List.forall_mem_append.mpr ⟨hs, List.forall_mem_singleton.mpr hNew⟩
    · refine List.pairwise_append.mpr ⟨hFree, List.pairwise_singleton _ _, fun old hOld => ?_⟩
      exact List.forall_mem_singleton.mpr ((conflict?_eq_none_iff_forall hNew).mp hNone old hOld)

theorem ConflictFree.offerAll (hs : s.InForm) (hFree : s.ConflictFree)
    {entries : List (StoredConstraint ℝ)}
    (hForm : ∀ entry ∈ entries, entry.constraint.lhs.Canonical) :
    (s.offerAll entries).InForm ∧ (s.offerAll entries).ConflictFree := by
  induction entries generalizing s with
  | nil => exact ⟨hs, hFree⟩
  | cons new entries ih =>
    obtain ⟨hNew, hRest⟩ := List.forall_mem_cons.mp hForm
    obtain ⟨hs', hFree'⟩ := ConflictFree.offer hs hFree hNew
    exact ih hs' hFree' hRest

theorem ConflictFree.eq_of_parallel (hs : s.InForm) (hFree : s.ConflictFree) {i j : ConstraintId}
    {c d : StoredConstraint ℝ} (hi : s.get? i = some c) (hj : s.get? j = some d)
    (hc : c.constraint.ConflictsWith new.constraint)
    (hd : d.constraint.ConflictsWith new.constraint) (hNew : new.constraint.lhs.Canonical) :
    i = j := by
  -- two equalities that are parallel to a third one are parallel; by symmetry it is enough that
  -- neither comes before the other
  have hApart {i j : ConstraintId} {c d : StoredConstraint ℝ} (hi : s.get? i = some c)
      (hj : s.get? j = some d) (hc : c.constraint.ConflictsWith new.constraint)
      (hd : d.constraint.ConflictsWith new.constraint) : ¬ i.pos < j.pos := by
    intro hLess
    obtain ⟨hiBound, rfl⟩ := List.getElem?_eq_some_iff.mp hi
    obtain ⟨hjBound, rfl⟩ := List.getElem?_eq_some_iff.mp hj
    have hdForm := hs _ (List.getElem_mem hjBound)
    refine List.pairwise_iff_getElem.mp hFree _ _ hiBound hjBound hLess ⟨hc.1, hd.1, ?_⟩
    exact hc.2.2.trans hdForm (hd.2.2.symm hNew)
  obtain ⟨i⟩ := i
  obtain ⟨j⟩ := j
  have hLess := hApart hi hj hc hd
  have hGreater := hApart hj hi hd hc
  rw [ConstraintId.mk.injEq]
  simp only at hLess hGreater
  omega

end Freedom

section Refusals

variable {s : Store ℝ} {new : StoredConstraint ℝ} {conflict : Conflict}

theorem offer_of_push {s' : Store ℝ} {id : ConstraintId}
    (h : s.push new.constraint new.origin = .ok (id, s')) : s.offer new = s' := by
  rw [offer, h]

theorem offer_of_refused (h : s.push new.constraint new.origin = .error conflict) :
    s.offer new = s := by
  rw [offer, h]

theorem offerAll_of_pushAll {entries : List (StoredConstraint ℝ)} {s' : Store ℝ}
    (h : s.pushAll entries = .ok s') : s.offerAll entries = s' := by
  induction entries generalizing s with
  | nil => exact Except.ok.inj h
  | cons new entries ih =>
    rw [pushAll, List.foldlM_cons] at h
    cases hPush : s.push new.constraint new.origin with
    | error conflict =>
      rw [hPush] at h
      cases h
    | ok result =>
      rw [hPush] at h
      exact (congrArg (Store.offerAll · entries) (offer_of_push hPush)).trans (ih h)

theorem after_pushConstraint_of_refused {session : Session ℝ} {c : Constraint ℝ}
    {origin : ConstraintOrigin} (h : session.declared.push c origin = .error conflict) :
    (Action.pushConstraint c origin).after session = session := by
  have hReads := Action.reads_checkExpression c.lhs session
  rw [Action.after] at hReads
  rw [Action.pushConstraint, Action.after_bind]
  cases hCheck : Action.checkExpression c.lhs session with
  | error e session' => rwa [hCheck] at hReads
  | ok _ session' =>
    rw [hCheck] at hReads
    cases hReads
    simp only [Action.after, Bind.bind, EStateM.bind, get, getThe, MonadStateOf.get, EStateM.get, h]
    rfl

/-- What a conflict says about the store and the constraint that it refused: which identifier was
to be given, which constraint stands in the way, and what the two equalities have in common. -/
structure Explains (s : Store ℝ) (new : StoredConstraint ℝ) (conflict : Conflict) : Prop where
  unchanged : s.offer new = s
  session (session : Session ℝ) (h : session.declared = s) :
    (Action.pushConstraint new.constraint new.origin).after session = session
  added (other : StoredConstraint ℝ) (id : ConstraintId) (s' : Store ℝ)
    (h : s.push other.constraint other.origin = .ok (id, s')) :
    id = conflict.added ∧ s'.get? conflict.added = some other
  existing : ∃ old, s.get? conflict.existing = some old ∧
    old.constraint.ConflictsWith new.constraint ∧
    (∀ id other, s.get? id = some other → other.constraint.sense = .equal →
      other.constraint.lhs.Parallel new.constraint.lhs → id = conflict.existing) ∧
    (conflict.kind = .duplicate ↔ ∀ gram value, SymmetricEntries gram →
      (old.constraint.HoldsAt gram value ↔ new.constraint.HoldsAt gram value)) ∧
    (conflict.kind = .contradictory ↔ ¬ ∃ gram value, SymmetricEntries gram ∧
      old.constraint.HoldsAt gram value ∧ new.constraint.HoldsAt gram value)

theorem ConflictFree.explains (hs : s.InForm) (hFree : s.ConflictFree)
    (hNew : new.constraint.lhs.Canonical)
    (h : s.push new.constraint new.origin = .error conflict) : s.Explains new conflict := by
  obtain ⟨hActive, hAdded, old, hOld, hSense, hKind⟩ := conflict?_eq_some (push_eq_error_iff.mp h)
  have hNewSense : new.constraint.sense = .equal := by simp_all [Constraint.isActive]
  have hUnknown : new.constraint.lhs.isConstant = false := by simp_all [Constraint.isActive]
  have hConflicts (other : Constraint ℝ) := Constraint.conflictsWith_iff (c := other) hNew hActive
  have hParallel : old.constraint.lhs.Parallel new.constraint.lhs := by
    by_contra hApart
    rw [conflictKind?_eq_none_iff.mpr hApart] at hKind
    cases hKind
  have hConflict := (hConflicts _).mpr ⟨hSense, hParallel⟩
  have hSolutions := kind_iff_solutions hKind hNew hUnknown
  refine ⟨offer_of_refused h, ?_, ?_, old, hOld, hConflict, ?_, ?_⟩
  · rintro session rfl
    exact after_pushConstraint_of_refused h
  · intro other id s' hPush
    obtain ⟨-, rfl, -⟩ := push_eq_ok_iff.mp hPush
    rw [hAdded]
    exact ⟨rfl, get?_of_push hPush⟩
  · intro id other hOther hEqual hParallel'
    exact hFree.eq_of_parallel hs hOther hOld ((hConflicts _).mpr ⟨hEqual, hParallel'⟩) hConflict
      hNew
  · simpa only [Constraint.holdsAt_equal _ _ hSense, Constraint.holdsAt_equal _ _ hNewSense] using
      hSolutions

end Refusals

section Orders

variable {entries others : List (StoredConstraint ℝ)}

/-- Conflicts are mutual, so they do not depend on the order. -/
theorem pairwise_not_conflictsWith_of_perm
    (hForm : ∀ entry ∈ entries, entry.constraint.lhs.Canonical) (hPerm : entries.Perm others)
    (h : entries.Pairwise fun c d => ¬ c.constraint.ConflictsWith d.constraint) :
    others.Pairwise fun c d => ¬ c.constraint.ConflictsWith d.constraint := by
  have hMutual : entries.Pairwise fun c d => ¬ c.constraint.ConflictsWith d.constraint ∧
      ¬ d.constraint.ConflictsWith c.constraint := by
    refine h.imp_of_mem fun {c d} hc hd hApart => ⟨hApart, fun hConflict => hApart ?_⟩
    exact ⟨hConflict.2.1, hConflict.1, hConflict.2.2.symm (hForm c hc)⟩
  exact (hMutual.perm hPerm And.symm).imp And.left

theorem exists_pushAll_empty_iff (hForm : ∀ entry ∈ entries, entry.constraint.lhs.Canonical) :
    (∃ s, pushAll ∅ entries = .ok s) ↔
      entries.Pairwise fun c d => ¬ c.constraint.ConflictsWith d.constraint := by
  rw [exists_pushAll_iff hForm, and_iff_right]
  exact fun old hOld => nomatch hOld

/-- Constraints can all be pushed exactly when no two of them are in conflict, so in every order or
in none. Whatever was offered to a store, no two of its constraints are in conflict; it refuses
exactly what is in conflict with one of them, and says so. -/
theorem push_conflicts_exact (hForm : ∀ entry ∈ entries, entry.constraint.lhs.Canonical) :
    ((∃ s, pushAll ∅ entries = .ok s) ↔
      entries.Pairwise fun c d => ¬ c.constraint.ConflictsWith d.constraint) ∧
    (∀ others, entries.Perm others →
      ((∃ s, pushAll ∅ entries = .ok s) ↔ ∃ s, pushAll ∅ others = .ok s)) ∧
    (∀ s, pushAll ∅ entries = .ok s → s = offerAll ∅ entries) ∧
    (offerAll ∅ entries).ConflictFree ∧
    ∀ new : StoredConstraint ℝ, new.constraint.lhs.Canonical →
      ((∃ conflict, (offerAll ∅ entries).push new.constraint new.origin = .error conflict) ↔
        ∃ old ∈ (offerAll ∅ entries).entries, old.constraint.ConflictsWith new.constraint) ∧
      ∀ conflict, (offerAll ∅ entries).push new.constraint new.origin = .error conflict →
        (offerAll ∅ entries).Explains new conflict := by
  obtain ⟨hStored, hFree⟩ := ConflictFree.offerAll (s := ∅) (fun entry hEntry => nomatch hEntry)
    .nil hForm
  refine ⟨exists_pushAll_empty_iff hForm, fun others hPerm => ?_,
    fun s h => (offerAll_of_pushAll h).symm, hFree, fun new hNew => ⟨?_, ?_⟩⟩
  · have hForm' : ∀ entry ∈ others, entry.constraint.lhs.Canonical :=
      fun entry hEntry => hForm entry (hPerm.mem_iff.mpr hEntry)
    rw [exists_pushAll_empty_iff hForm, exists_pushAll_empty_iff hForm']
    exact ⟨pairwise_not_conflictsWith_of_perm hForm hPerm,
      pairwise_not_conflictsWith_of_perm hForm' hPerm.symm⟩
  · simp only [push_eq_error_iff, ← Option.isSome_iff_exists, ← Option.ne_none_iff_isSome, ne_eq,
      conflict?_eq_none_iff_forall hNew, not_forall, not_not, exists_prop]
  · exact fun conflict hPush => hFree.explains hStored hNew hPush

end Orders

section Example

attribute [local instance] atLeastTwo_two

/-- A value is one, and it is at most two. -/
noncomputable def pinnedValue : List (StoredConstraint ℝ) :=
  [⟨⟨⟨[(⟨0⟩, 1)], [], -1⟩, .equal⟩, .initialCondition⟩,
    ⟨⟨⟨[(⟨0⟩, 1)], [], -2⟩, .lessEq⟩, .initialCondition⟩]

theorem push_conflicts_exact_pinnedValue :
    (∀ entry ∈ pinnedValue, entry.constraint.lhs.Canonical) ∧
    (offerAll ∅ pinnedValue).push ⟨⟨[(⟨0⟩, -1)], [], 1⟩, .equal⟩ .initialCondition =
      .error ⟨.duplicate, ⟨0⟩, ⟨2⟩⟩ ∧
    (offerAll ∅ pinnedValue).Explains ⟨⟨⟨[(⟨0⟩, -1)], [], 1⟩, .equal⟩, .initialCondition⟩
      ⟨.duplicate, ⟨0⟩, ⟨2⟩⟩ := by
  have hCanonical {a b : ℝ} (ha : a ≠ 0) : (⟨[(⟨0⟩, a)], [], b⟩ : Expression ℝ).Canonical := by
    refine ⟨⟨List.pairwise_singleton _ _, ?_⟩, Terms.canonical_nil, ?_⟩
    · simpa using ha
    · exact fun term hTerm => nomatch hTerm
  have hForm : ∀ entry ∈ pinnedValue, entry.constraint.lhs.Canonical := by
    simp only [pinnedValue, List.forall_mem_cons]
    exact ⟨hCanonical one_ne_zero, hCanonical one_ne_zero, fun _ hNone => nomatch hNone⟩
  have hPush : (offerAll ∅ pinnedValue).push ⟨⟨[(⟨0⟩, -1)], [], 1⟩, .equal⟩ .initialCondition =
      .error ⟨.duplicate, ⟨0⟩, ⟨2⟩⟩ := by
    have hFirst : offerAll ∅ pinnedValue = ⟨pinnedValue⟩ := rfl
    have hNegated : -(⟨[(⟨0⟩, -1)], [], 0⟩ : Expression ℝ) = ⟨[(⟨0⟩, 1)], [], 0⟩ := by
      refine Expression.Canonical.eq_of_forall_eval_eq (E := ℝ)
        ((hCanonical (by norm_num)).scale _) (hCanonical one_ne_zero) fun r => ?_
      rw [r.eval_neg]
      simp [Realization.eval, Expression.evalAt]
    have hKind : conflictKind? (⟨[(⟨0⟩, 1)], [], -1⟩ : Expression ℝ) ⟨[(⟨0⟩, -1)], [], 1⟩ =
        some .duplicate := by
      simp [conflictKind?, Expression.linearPart, hNegated]
      exact Eq.symm
    rw [push_eq_error_iff, hFirst]
    simp [conflict?, items, pinnedValue, hKind, Constraint.isActive, Expression.isConstant, size]
  obtain ⟨-, -, -, -, hExact⟩ := push_conflicts_exact hForm
  exact ⟨hForm, hPush, (hExact _ (hCanonical (by norm_num))).2 _ hPush⟩

end Example

end Store

end PerformanceEstimation
