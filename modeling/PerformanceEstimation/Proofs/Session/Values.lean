import Mathlib
import PerformanceEstimation.Proofs.Session.Recall

/-!
# Values without gradients

The value of a function is found without the gradients that an oracle would add. A second session
that has no more basis vectors, and the same first values at a point, follows the oracle with the
value alone (`exists_evalValue_of_evalOracle`): both evaluators return the same value, although they
look for triples in different ways and leave different sessions behind.
-/

set_option autoImplicit false

namespace PerformanceEstimation

open Session

namespace Session

variable {α : Type} [Scalar α]

/-- The second session has the same functions, with the same values at the point, and at least as
much room for basis vectors. -/
structure FollowsAt (x : Point α) (s t : Session α) : Prop where
  capacity : t.basis.capacity = s.basis.capacity
  size_le : t.basis.size ≤ s.basis.size
  valueCount : t.valueCount = s.valueCount
  leaf : ∀ {f : ℕ} {cls : FunctionClass α} {triples : List (Triple α)},
    s.functions[f]? = some (.leaf cls triples) → ∃ triples',
      t.functions[f]? = some (.leaf cls triples') ∧
        (triples'.find? (·.point == x)).map (·.value) = (triples.find? (·.point == x)).map (·.value)
  sum : ∀ {f : ℕ} {terms : List (FunctionId × α)},
    s.functions[f]? = some (.sum terms) → t.functions[f]? = some (.sum terms)

namespace FollowsAt

variable {x : Point α} {s s' t t' : Session α}

theorem refl (s : Session α) : FollowsAt x s s where
  capacity := rfl
  size_le := le_rfl
  valueCount := rfl
  leaf {_ _ triples} hLeaf := ⟨triples, hLeaf, rfl⟩
  sum hSum := hSum

theorem set (h : FollowsAt x s t) {f : FunctionId} {cls : FunctionClass α}
    {triples triples' new new' : List (Triple α)}
    (hLeaf : s.functions[f.pos]? = some (.leaf cls triples))
    (hLeaf' : t.functions[f.pos]? = some (.leaf cls triples'))
    (hFirst : (new'.find? (·.point == x)).map (·.value) = (new.find? (·.point == x)).map (·.value))
    (hCapacity : t'.basis.capacity = s'.basis.capacity) (hSize : t'.basis.size ≤ s'.basis.size)
    (hCount : t'.valueCount = s'.valueCount)
    (hFunctions : s'.functions = s.functions.set f.pos (.leaf cls new))
    (hFunctions' : t'.functions = t.functions.set f.pos (.leaf cls new')) : FollowsAt x s' t' where
  capacity := hCapacity
  size_le := hSize
  valueCount := hCount
  leaf := by
    intro g cls' triples'' hBody
    rw [hFunctions] at hBody
    rw [hFunctions']
    by_cases hSame : f.pos = g
    · subst hSame
      rw [List.getElem?_set_self (List.getElem?_eq_some_iff.mp hLeaf).1] at hBody
      cases hBody
      exact ⟨new', List.getElem?_set_self (List.getElem?_eq_some_iff.mp hLeaf').1, hFirst⟩
    · rw [List.getElem?_set_ne hSame] at hBody ⊢
      exact h.leaf hBody
  sum := by
    intro g terms hBody
    rw [hFunctions] at hBody
    rw [hFunctions']
    by_cases hSame : f.pos = g
    · subst hSame
      rw [List.getElem?_set_self (List.getElem?_eq_some_iff.mp hLeaf).1] at hBody
      cases hBody
    · rw [List.getElem?_set_ne hSame] at hBody ⊢
      exact h.sum hBody

end FollowsAt

end Session

namespace Action

variable {α : Type} [Scalar α] {x : Point α} {s s' t : Session α} {f : FunctionId}
  {r : Point α × Expression α}

section Folds

variable {β γ δ : Type}

omit [Scalar α] in
theorem exists_foldlM_of_follows {R : Session α → Session α → Prop} {act : γ → β → Action α γ}
    {act' : δ → β → Action α δ} (π : γ → δ) {bs : List β}
    (hStep : ∀ b ∈ bs, ∀ {c c' s s' t}, act c b s = .ok c' s' → R s t →
      ∃ t', act' (π c) b t = .ok (π c') t' ∧ R s' t')
    {c c' : γ} (h : bs.foldlM act c s = .ok c' s') (hFollows : R s t) :
    ∃ t', bs.foldlM act' (π c) t = .ok (π c') t' ∧ R s' t' := by
  induction bs generalizing c s t with
  | nil =>
    cases h
    exact ⟨t, rfl, hFollows⟩
  | cons b bs ih =>
    obtain ⟨hHead, hTail⟩ := List.forall_mem_cons.mp hStep
    rw [List.foldlM_cons] at h
    obtain ⟨c₁, s₁, hFirst, hRest⟩ := bind_eq_ok_iff.mp h
    obtain ⟨t₁, hFirst', hFollows₁⟩ := hHead hFirst hFollows
    obtain ⟨t', hRest', hFollows'⟩ := ih (fun b hb => hTail b hb) hRest hFollows₁
    rw [List.foldlM_cons]
    exact ⟨t', bind_eq_ok_iff.mpr ⟨π c₁, t₁, hFirst', hRest'⟩, hFollows'⟩

end Folds

theorem evalValue_of_find {cls : FunctionClass α} {triples : List (Triple α)} {first : Triple α}
    (hLeaf : s.functions[f.pos]? = some (.leaf cls triples))
    (hFirst : triples.find? (·.point == x) = some first) :
    evalValue x f s = .ok first.value s := by
  rw [evalValue, lookup_bind_of_some hLeaf]
  simp only [hFirst]
  rfl

theorem exists_evalValue_of_fresh {cls : FunctionClass α} {triples : List (Triple α)}
    (hLeaf : s.functions[f.pos]? = some (.leaf cls triples))
    (hFresh : triples.find? (·.point == x) = none) (hRoom : s.basis.size < s.basis.capacity) :
    ∃ s', evalValue x f s = .ok (.ofValue ⟨s.valueCount⟩) s' ∧
      s'.basis.capacity = s.basis.capacity ∧ s'.basis.size = s.basis.size + 1 ∧
      s'.valueCount = s.valueCount + 1 ∧ ∃ g, s'.functions = s.functions.set f.pos
        (.leaf cls (triples ++ [⟨x, g, .ofValue ⟨s.valueCount⟩⟩])) := by
  obtain ⟨g, s', hEval, hRest⟩ : ∃ g s', evalOracle x f s = .ok (g, .ofValue ⟨s.valueCount⟩) s' ∧
      s'.basis.capacity = s.basis.capacity ∧ s'.basis.size = s.basis.size + 1 ∧
      s'.valueCount = s.valueCount + 1 ∧ s'.functions = s.functions.set f.pos
        (.leaf cls (triples ++ [⟨x, g, .ofValue ⟨s.valueCount⟩⟩])) := by
    have hEvaluates := evaluatesLeaf (x := x) hLeaf
    generalize evalOracle x f s = result at hEvaluates ⊢
    cases hEvaluates with
    | known hFirst hSingle => cases hFresh.symm.trans hFirst
    | full hFull => simp [Basis.register?, hRoom] at hFull
    | again hFirst hSeveral hNew => cases hFresh.symm.trans hFirst
    | new hNone hNew =>
      refine ⟨_, _, rfl, ?_, Basis.size_of_register? hNew, rfl, rfl⟩
      obtain ⟨-, -, rfl⟩ := Basis.eq_of_register? hNew
      rfl
  rw [evalValue, lookup_bind_of_some hLeaf]
  simp only [hFresh]
  exact ⟨s', bind_eq_ok_iff.mpr ⟨_, s', hEval, rfl⟩, hRest.1, hRest.2.1, hRest.2.2.1, g,
    hRest.2.2.2⟩

theorem exists_evalValue_of_evalOracle_leaf {cls : FunctionClass α} {triples : List (Triple α)}
    (hx : (x == x) = true) (hLeaf : s.functions[f.pos]? = some (.leaf cls triples))
    (h : evalOracle x f s = .ok r s') (hFollows : FollowsAt x s t) :
    ∃ t', evalValue x f t = .ok r.2 t' ∧ FollowsAt x s' t' := by
  obtain ⟨triples', hLeaf', hFirst'⟩ := hFollows.leaf hLeaf
  have hEvaluates := evaluatesLeaf (x := x) hLeaf
  rw [h] at hEvaluates
  cases hEvaluates with
  | known hFirst hSingle =>
    rw [hFirst] at hFirst'
    obtain ⟨first', hFind, hValue⟩ := Option.map_eq_some_iff.mp hFirst'
    have hFound := evalValue_of_find hLeaf' hFind
    rw [hValue] at hFound
    exact ⟨t, hFound, hFollows⟩
  | again hFirst hSeveral hRoom =>
    have hSize := Basis.size_of_register? hRoom
    obtain ⟨-, -, hBasis⟩ := Basis.eq_of_register? hRoom
    rw [hFirst] at hFirst'
    obtain ⟨first', hFind, hValue⟩ := Option.map_eq_some_iff.mp hFirst'
    have hFound := evalValue_of_find hLeaf' hFind
    rw [hValue] at hFound
    -- the oracle takes a new gradient here, the value alone is recalled without one
    have hUnchanged : t.functions = t.functions.set f.pos (.leaf cls triples') := by
      obtain ⟨hBound, hBody⟩ := List.getElem?_eq_some_iff.mp hLeaf'
      rw [← hBody, List.set_getElem_self]
    refine ⟨t, hFound, hFollows.set hLeaf hLeaf' ?_ ?_ ?_ hFollows.valueCount rfl hUnchanged⟩
    · rw [List.find?_append, hFirst, hFind]
      exact congrArg some hValue
    · rw [hFollows.capacity, hBasis]
    · exact hFollows.size_le.trans (by rw [hSize]; omega)
  | new hNone hRoom =>
    have hSize := Basis.size_of_register? hRoom
    obtain ⟨-, hLess, hBasis⟩ := Basis.eq_of_register? hRoom
    rw [hNone] at hFirst'
    have hFresh := Option.map_eq_none_iff.mp hFirst'
    obtain ⟨t', hValue, hCapacity', hSize', hCount', g, hFunctions'⟩ :=
      exists_evalValue_of_fresh hLeaf' hFresh
        (hFollows.size_le.trans_lt hLess |>.trans_eq hFollows.capacity.symm)
    refine ⟨t', hFollows.valueCount ▸ hValue, ?_⟩
    refine hFollows.set hLeaf hLeaf' ?_ ?_ ?_ ?_ rfl hFunctions'
    · simp [List.find?_append, hNone, hFresh, hx, hFollows.valueCount]
    · rw [hCapacity', hFollows.capacity, hBasis]
    · rw [hSize', hSize]
      exact Nat.succ_le_succ hFollows.size_le
    · rw [hCount', hFollows.valueCount]

/-- The value alone is found where the oracle succeeds, and it is the same. -/
theorem exists_evalValue_of_evalOracle (hx : (x == x) = true) (h : evalOracle x f s = .ok r s')
    (hFollows : FollowsAt x s t) : ∃ t', evalValue x f t = .ok r.2 t' ∧ FollowsAt x s' t' := by
  induction hPos : f.pos using Nat.strongRecOn generalizing f r s s' t with
  | ind pos ih =>
    cases hBody : s.functions[f.pos]? with
    | none =>
      rw [evalOracle, lookup_bind_of_none hBody] at h
      cases h
    | some body =>
      cases body with
      | leaf cls triples => exact exists_evalValue_of_evalOracle_leaf hx hBody h hFollows
      | sum terms =>
        rw [evalOracle, lookup_bind_of_some hBody] at h
        rw [evalValue, lookup_bind_of_some (hFollows.sum hBody)]
        refine exists_foldlM_of_follows Prod.snd ?_ h hFollows
        rintro ⟨t₁, w⟩ - ⟨g, v⟩ ⟨g', v'⟩ s₁ s₂ u hStep hFollows₁
        dsimp only at hStep ⊢
        split at hStep
        · rename_i hLess
          obtain ⟨⟨gt, vt⟩, s₃, hEval, hResult⟩ := bind_eq_ok_iff.mp hStep
          cases hResult
          obtain ⟨u', hValue, hFollows₂⟩ := ih _ (hPos ▸ hLess) hEval hFollows₁ rfl
          rw [dif_pos hLess]
          exact ⟨u', bind_eq_ok_iff.mpr ⟨vt, u', hValue, rfl⟩, hFollows₂⟩
        · cases hStep

end Action

end PerformanceEstimation
