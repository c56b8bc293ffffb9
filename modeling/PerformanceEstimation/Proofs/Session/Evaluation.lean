import Mathlib
import PerformanceEstimation.Proofs.Algebra.Equality
import PerformanceEstimation.Proofs.Session.Steps

/-!
# Steps of an evaluation

`EvaluatesLeaf` lists the ways in which a leaf is evaluated at a point. From it and by induction on
the function follow the steps of an oracle of any sum (`leads_evalOracle`): from registered unknowns
it leads to registered unknowns, and every triple that it adds fits those before it.
-/

set_option autoImplicit false

namespace PerformanceEstimation

open Session

variable {α : Type} [Scalar α]

section Freshness

theorem FunctionClass.fits_of_fresh (cls : FunctionClass α) {triples : List (Triple α)}
    {t : Triple α} {n : ℕ} (hBelow : ∀ old ∈ triples, old.point.Below n)
    (hFresh : ∃ term ∈ t.point.terms, n ≤ term.1.pos) : cls.Fits triples t := by
  intro first hFirst
  obtain ⟨term, hTerm, hNew⟩ := hFresh
  have hEqual : (first.point == t.point) = true := by simpa using List.find?_some hFirst
  obtain ⟨other, hOther, hKey⟩ := Point.exists_key_of_beq hEqual hTerm
  have hOld := hBelow first (List.mem_of_find?_eq_some hFirst) other hOther
  rw [hKey] at hOld
  omega

end Freshness

namespace Action

variable {strict : Prop} {s : Session α}

section Leaf

/-- How a leaf with the given triples is evaluated at a point. -/
inductive EvaluatesLeaf (x : Point α) (f : FunctionId) (cls : FunctionClass α)
    (triples : List (Triple α)) (s : Session α) :
    EStateM.Result (SessionError α) (Session α) (Point α × Expression α) → Prop
  | known {first : Triple α} (hFirst : triples.find? (·.point == x) = some first)
    (hSingle : cls.singleValued = true) :
    EvaluatesLeaf x f cls triples s (.ok (first.gradient, first.value) s)
  | full {e : SessionError α} (hFull : s.basis.register? (.gradient f) = none) :
    EvaluatesLeaf x f cls triples s (.error e s)
  | again {first : Triple α} {i : BasisIndex} {basis : Basis}
    (hFirst : triples.find? (·.point == x) = some first) (hSeveral : cls.singleValued = false)
    (hRoom : s.basis.register? (.gradient f) = some (i, basis)) :
    EvaluatesLeaf x f cls triples s (.ok (.ofBasis i, first.value)
      { s with
        basis
        functions := s.functions.set f.pos
          (.leaf cls (triples ++ [⟨x, .ofBasis i, first.value⟩])) })
  | new {i : BasisIndex} {basis : Basis} (hNone : triples.find? (·.point == x) = none)
    (hRoom : s.basis.register? (.gradient f) = some (i, basis)) :
    EvaluatesLeaf x f cls triples s (.ok (.ofBasis i, .ofValue ⟨s.valueCount⟩)
      { s with
        basis
        valueCount := s.valueCount + 1
        functions := s.functions.set f.pos
          (.leaf cls (triples ++ [⟨x, .ofBasis i, .ofValue ⟨s.valueCount⟩⟩])) })

theorem newBasis_eq (origin : BasisOrigin) (s : Session α) :
    newBasis origin s = match s.basis.register? origin with
      | some (i, basis) => .ok (.ofBasis i) { s with basis }
      | none => .error (.construction (.basisCapacity s.basis.capacity)) s := by
  simp only [newBasis, Bind.bind, EStateM.bind, get, getThe, MonadStateOf.get, EStateM.get]
  cases s.basis.register? origin <;> rfl

omit [Scalar α] in
theorem pushTriple_eq {f : FunctionId} {cls : FunctionClass α} {triples : List (Triple α)}
    (hLeaf : s.functions[f.pos]? = some (.leaf cls triples)) (t : Triple α) :
    pushTriple f t s =
      .ok () { s with functions := s.functions.set f.pos (.leaf cls (triples ++ [t])) } := by
  have hLookup := lookup_eq f s
  rw [hLeaf] at hLookup
  simp only [pushTriple, Bind.bind, EStateM.bind, hLookup]
  rfl

theorem evaluatesLeaf {x : Point α} {f : FunctionId} {cls : FunctionClass α}
    {triples : List (Triple α)} (hLeaf : s.functions[f.pos]? = some (.leaf cls triples)) :
    EvaluatesLeaf x f cls triples s (evalOracle x f s) := by
  have hLookup := lookup_eq f s
  rw [hLeaf] at hLookup
  have hPush {basis : Basis} {count : ℕ} (t : Triple α) := pushTriple_eq
    (s := { s with basis := basis, valueCount := count }) hLeaf t
  rw [evalOracle]
  simp only [Bind.bind, EStateM.bind, hLookup]
  cases hFind : triples.find? (·.point == x) with
  | some first =>
    dsimp only
    by_cases hSingle : cls.singleValued = true
    · rw [if_pos hSingle]
      exact .known hFind hSingle
    · rw [if_neg hSingle]
      simp only [newTriple, Bind.bind, EStateM.bind, newBasis_eq]
      cases hRoom : s.basis.register? (.gradient f) with
      | none => exact .full hRoom
      | some new =>
        simp only [pure, EStateM.pure, hPush]
        exact .again hFind (Bool.eq_false_iff.mpr hSingle) hRoom
  | none =>
    simp only [newTriple, Bind.bind, EStateM.bind, newBasis_eq]
    cases hRoom : s.basis.register? (.gradient f) with
    | none => exact .full hRoom
    | some new =>
      simp only [nextValue, Bind.bind, EStateM.bind, get, getThe, MonadStateOf.get, EStateM.get,
        set, MonadStateOf.set, EStateM.set, pure, EStateM.pure, hPush]
      exact .new hFind hRoom

theorem leads_evalOracle_leaf (hs : s.WellFormed) {x : Point α} (hx : x.Below s.basis.size)
    {f : FunctionId} {cls : FunctionClass α} {triples : List (Triple α)}
    (hLeaf : s.functions[f.pos]? = some (.leaf cls triples)) :
    Leads strict (evalOracle x f) s fun r s' =>
      r.1.Below s'.basis.size ∧ r.2.Below s'.basis.size s'.valueCount ∧
        ∀ g, g ≠ f.pos → s'.functions[g]? = s.functions[g]? := by
  have hEvaluates := evaluatesLeaf (x := x) hLeaf
  unfold Leads
  generalize evalOracle x f s = result at hEvaluates ⊢
  cases hEvaluates with
  | known hFirst hSingle =>
    have hOld := hs.triples hLeaf _ (List.mem_of_find?_eq_some hFirst)
    exact ⟨.refl, hOld.gradient, hOld.value, fun _ _ => rfl⟩
  | full hFull => exact .refl
  | @again first i basis hFirst hSeveral hRoom =>
    have hSize := Basis.size_of_register? hRoom
    obtain ⟨rfl, -, -⟩ := Basis.eq_of_register? hRoom
    have hOld := hs.triples hLeaf _ (List.mem_of_find?_eq_some hFirst)
    have hLarger : s.basis.size ≤ basis.size := by omega
    have hGradient : (Point.ofBasis ⟨s.basis.size⟩ : Point α).Below basis.size :=
      Point.below_ofBasis (by simp only; omega)
    have hValue := hOld.value.mono hLarger le_rfl
    have hTriple : Step strict { s with basis } _ := .triple hLeaf
      (t := ⟨x, .ofBasis ⟨s.basis.size⟩, first.value⟩) ⟨hx.mono hLarger, hGradient, hValue⟩
      fun _ other hOther => ⟨hSeveral, by rw [Option.some.inj (hFirst.symm.trans hOther)]⟩
    refine ⟨.tail (.single (.basis hRoom)) hTriple, hGradient, hValue, fun g hg => ?_⟩
    exact List.getElem?_set_ne (Ne.symm hg)
  | @new i basis hNone hRoom =>
    have hSize := Basis.size_of_register? hRoom
    obtain ⟨rfl, -, -⟩ := Basis.eq_of_register? hRoom
    have hLarger : s.basis.size ≤ basis.size := by omega
    have hGradient : (Point.ofBasis ⟨s.basis.size⟩ : Point α).Below basis.size :=
      Point.below_ofBasis (by simp only; omega)
    have hValue : (Expression.ofValue ⟨s.valueCount⟩ : Expression α).Below basis.size
        (s.valueCount + 1) := Expression.below_ofValue (Nat.lt_succ_self _)
    have hTriple : Step strict { s with basis, valueCount := s.valueCount + 1 } _ := .triple hLeaf
      (t := ⟨x, .ofBasis ⟨s.basis.size⟩, .ofValue ⟨s.valueCount⟩⟩)
      ⟨hx.mono hLarger, hGradient, hValue⟩
      fun _ other hOther => by
        cases hNone.symm.trans hOther
    refine ⟨.tail (.tail (.single (.basis hRoom)) (.value _)) hTriple, hGradient, hValue,
      fun g hg => ?_⟩
    exact List.getElem?_set_ne (Ne.symm hg)

end Leaf

section Recursion

omit [Scalar α] in
theorem lookup_eq_ok_iff {f : FunctionId} {body : FunctionBody α} :
    lookup f s = .ok body s ↔ s.functions[f.pos]? = some body := by
  rw [lookup_eq]
  cases s.functions[f.pos]? with
  | none => simp
  | some other => simp

theorem leads_evalOracle (hs : s.WellFormed) {x : Point α} (hx : x.Below s.basis.size)
    (f : FunctionId) : Leads strict (evalOracle x f) s fun r s' =>
      r.1.Below s'.basis.size ∧ r.2.Below s'.basis.size s'.valueCount := by
  -- the terms of a sum come before it
  induction hPos : f.pos using Nat.strongRecOn generalizing f s with
  | ind pos ih =>
    cases hBody : s.functions[f.pos]? with
    | some body =>
      cases body with
      | leaf cls triples =>
        exact (leads_evalOracle_leaf hs hx hBody).mono fun r s' _ h => ⟨h.1, h.2.1⟩
      | sum terms =>
        rw [evalOracle]
        refine (reads_lookup f).bind_leads fun body hLookup => ?_
        cases hBody.symm.trans (lookup_eq_ok_iff.mp hLookup)
        refine Leads.foldlM (P := fun (r : Point α × Expression α) s' =>
          r.1.Below s'.basis.size ∧ r.2.Below s'.basis.size s'.valueCount) ?_
          ⟨Point.below_zero, Expression.below_zero⟩
        rintro ⟨g, v⟩ s₁ ⟨t, w⟩ - hSteps ⟨hg, hv⟩
        dsimp only
        split
        · rename_i hTerm
          have hx₁ := hx.mono hSteps.precedes.size_le
          refine (ih _ (hPos ▸ hTerm) (hSteps.wellFormed hs) hx₁ t rfl).bind ?_
          rintro ⟨gt, vt⟩ s₂ hMore ⟨hgt, hvt⟩
          have hSize := hMore.precedes.size_le
          exact leads_pure ⟨(hg.mono hSize).axpy w hgt,
            (hv.mono hSize hMore.precedes.valueCount).axpy w hvt⟩
        · exact leads_fail _
    | none =>
      rw [evalOracle]
      refine (reads_lookup f).bind_leads fun body hLookup => ?_
      cases hBody.symm.trans (lookup_eq_ok_iff.mp hLookup)

theorem leads_evalValue (hs : s.WellFormed) {x : Point α} (hx : x.Below s.basis.size)
    (f : FunctionId) : Leads strict (evalValue x f) s fun v s' =>
      v.Below s'.basis.size s'.valueCount := by
  induction hPos : f.pos using Nat.strongRecOn generalizing f s with
  | ind pos ih =>
    rw [evalValue]
    refine (reads_lookup f).bind_leads fun body hLookup => ?_
    have hBody := lookup_eq_ok_iff.mp hLookup
    cases body with
    | leaf cls triples =>
      dsimp only
      split
      · rename_i first hFirst
        exact leads_pure (hs.triples hBody _ (List.mem_of_find?_eq_some hFirst)).value
      · exact (leads_evalOracle hs hx f).bind fun r s' _ h => leads_pure h.2
    | sum terms =>
      refine Leads.foldlM (P := fun (v : Expression α) s' =>
        v.Below s'.basis.size s'.valueCount) ?_ Expression.below_zero
      rintro v s₁ ⟨t, w⟩ - hSteps hv
      dsimp only
      split
      · rename_i hTerm
        have hx₁ := hx.mono hSteps.precedes.size_le
        refine (ih _ (hPos ▸ hTerm) (hSteps.wellFormed hs) hx₁ t rfl).bind ?_
        intro vt s₂ hMore hvt
        exact leads_pure
          ((hv.mono hMore.precedes.size_le hMore.precedes.valueCount).axpy w hvt)
      · exact leads_fail _

end Recursion

end Action

end PerformanceEstimation
