import Mathlib
import PerformanceEstimation.Proofs.Algebra.Sums
import PerformanceEstimation.Proofs.Session.Discipline
import PerformanceEstimation.Proofs.Session.Leaves
import PerformanceEstimation.Proofs.Session.Uniqueness

/-!
# Stationary points of sums

At a stationary point of a weighted sum of distinct leaves, every term gets one new triple, and the
gradients of these cancel: that of the last term is solved for, and the sum comes out as the zero
point itself. If the terms have single gradients, the oracle of the sum recalls just that
(`stationaryPoint_cancels`).
-/

set_option autoImplicit false

namespace PerformanceEstimation

open Session

section Cancellation

/-- What is divided by the last weight and negated cancels with its multiple by that weight. -/
theorem Point.weighted_concat_eq_zero {terms : List (ℝ × Point ℝ)}
    (h : ∀ term ∈ terms, term.2.Canonical) {weight : ℝ} (hWeight : weight ≠ 0) :
    weighted (terms ++ [(weight, (weighted terms).scale (-1 / weight))]) = 0 := by
  have hRest := canonical_weighted h
  rw [weighted_concat]
  refine (hRest.axpy _ (hRest.scale _)).eq_of_forall_point_eq (E := ℝ) .zero fun r => ?_
  rw [r.point_axpy, r.point_scale, smul_smul, mul_div_cancel₀ _ hWeight, neg_one_smul,
    add_neg_cancel, r.point_zero]

end Cancellation

section Sums

variable {α : Type} [Scalar α] {s s' : Session α} {x : Point α} {f : FunctionId}
  {terms : List (FunctionId × α)}

open PerformanceEstimation.Action

theorem exists_evaluatesAll_of_foldlM {g g' : Point α}
    (h : (terms.foldlM (fun (g : Point α) (t, w) => return g.axpy w (← evalOracle x t).1)
      g : Action α (Point α)) s = .ok g' s') :
    ∃ rs, EvaluatesAll x (terms.map (·.1)) s rs s' ∧
      g' = ((terms.map (·.2)).zip (rs.map (·.1))).foldl (fun p (c, y) => p.axpy c y) g := by
  induction terms generalizing g s with
  | nil =>
    cases h
    exact ⟨[], .nil _, rfl⟩
  | cons term terms ih =>
    rw [List.foldlM_cons] at h
    obtain ⟨_, s₁, hHead, hRest⟩ := bind_eq_ok_iff.mp h
    obtain ⟨r, _, hEval, hPure⟩ := bind_eq_ok_iff.mp hHead
    cases hPure
    obtain ⟨rs, hAll, rfl⟩ := ih hRest
    exact ⟨r :: rs, .cons hEval hAll, rfl⟩

theorem Session.known?_of_terms (hSum : s.functions[f.pos]? = some (.sum terms))
    (hBefore : ∀ term ∈ terms, term.1.pos < f.pos) {rs : List (Point α × Expression α)}
    (h : List.Forall₂ (fun term r => s.known? x term.1 = some r) terms rs) :
    s.known? x f = some (.weighted ((terms.map (·.2)).zip (rs.map (·.1))),
      .weighted ((terms.map (·.2)).zip (rs.map (·.2)))) := by
  rw [known?_sum hSum, Point.weighted, Expression.weighted]
  clear hSum
  generalize (0 : Point α) = g, (0 : Expression α) = v
  induction h generalizing g v with
  | nil => rfl
  | @cons term r terms rs hHead _ ih =>
    obtain ⟨hLess, hBefore'⟩ := List.forall_mem_cons.mp hBefore
    obtain ⟨t, w⟩ := term
    rw [List.foldlM_cons]
    dsimp only at hLess hHead ⊢
    rw [dif_pos hLess, hHead]
    exact ih hBefore' _ _

end Sums

namespace Session

variable {s s₁ s' : Session ℝ} {x : Point ℝ} {f : FunctionId} {terms : List (FunctionId × ℝ)}
  {gradients : List (Point ℝ)}

open PerformanceEstimation.Action

/-- Every term got one triple at the point, with one of the gradients and a value of its own. -/
structure Gains (s : Session ℝ) (terms : List (FunctionId × ℝ)) (x : Point ℝ)
    (gradients : List (Point ℝ)) (s' : Session ℝ) : Prop where
  length : gradients.length = terms.length
  valueCount : s'.valueCount = s.valueCount + terms.length
  triple : ∀ (k : ℕ) (term : FunctionId × ℝ) (g : Point ℝ), terms[k]? = some term →
    gradients[k]? = some g → ∃ cls triples,
      s.functions[term.1.pos]? = some (.leaf cls triples) ∧ (∀ t ∈ triples, t.point ≠ x) ∧
      s'.functions[term.1.pos]? =
        some (.leaf cls (triples ++ [⟨x, g, .ofValue ⟨s.valueCount + k⟩⟩]))
  others : ∀ g : FunctionId, g ∉ terms.map (·.1) →
    s'.functions[g.pos]? = s.functions[g.pos]?

structure Cancels (s : Session ℝ) (terms : List (FunctionId × ℝ)) (x : Point ℝ)
    (gradients : List (Point ℝ)) (s' : Session ℝ) : Prop extends s.Gains terms x gradients s' where
  cancel : Point.weighted ((terms.map (·.2)).zip gradients) = 0

theorem WellFormed.point_ne (hs : s.WellFormed) {cls : FunctionClass ℝ} {triples : List (Triple ℝ)}
    (hBody : s.functions[f.pos]? = some (.leaf cls triples)) :
    ∀ t ∈ triples, t.point ≠ .ofBasis ⟨s.basis.size⟩ := by
  intro t hMem hEqual
  have hBelow := (hs.triples hBody t hMem).point
  rw [hEqual] at hBelow
  exact lt_irrefl _ (hBelow _ (List.mem_singleton_self _))

theorem find?_eq_none_of_point_ne {triples : List (Triple ℝ)} (h : ∀ t ∈ triples, t.point ≠ x) :
    triples.find? (·.point == x) = none :=
  List.find?_eq_none.mpr fun t hMem => by simpa using h t hMem

/-- Distinct leaves gain a triple each as they are evaluated at the next basis vector. -/
theorem gains_of_evaluatesAll {s₂ : Session ℝ} {rs : List (Point ℝ × Expression ℝ)}
    (hs : s.WellFormed) (hFunctions : s₁.functions = s.functions)
    (hCount : s₁.valueCount = s.valueCount) (hDistinct : (terms.map (·.1)).Nodup)
    (hLeaf : ∀ term ∈ terms, ∃ cls triples,
      s.functions[term.1.pos]? = some (.leaf cls triples))
    (h : EvaluatesAll (.ofBasis ⟨s.basis.size⟩) (terms.map (·.1)) s₁ rs s₂) :
    s.Gains terms (.ofBasis ⟨s.basis.size⟩) (rs.map (·.1)) s₂ ∧
      s₁.basis.size ≤ s₂.basis.size ∧ ∀ r ∈ rs, r.1.Canonical := by
  have hFresh : ∀ t ∈ terms.map (·.1), ∃ cls triples,
      s₁.functions[t.pos]? = some (.leaf cls triples) ∧
        triples.find? (·.point == .ofBasis ⟨s.basis.size⟩) = none := by
    intro t ht
    obtain ⟨term, hTerm, rfl⟩ := List.mem_map.mp ht
    obtain ⟨cls, triples, hBody⟩ := hLeaf term hTerm
    exact ⟨cls, triples, hFunctions ▸ hBody, find?_eq_none_of_point_ne (hs.point_ne hBody)⟩
  obtain ⟨hSize₂, hCount₂, hEach⟩ := h.of_fresh hDistinct hFresh
  have hGrows := h.growsAt fun t ht => by
    obtain ⟨cls, triples, hBody, -⟩ := hFresh t ht
    exact ⟨cls, triples, hBody⟩
  have hResult {k : ℕ} {r : Point ℝ × Expression ℝ} (hr : rs[k]? = some r) :
      r = (.ofBasis ⟨s₁.basis.size + k⟩, .ofValue ⟨s₁.valueCount + k⟩) := by
    have hk : k < (terms.map (·.1)).length := h.length_eq ▸ (List.getElem?_eq_some_iff.mp hr).1
    have hKnown := (hEach k _ (List.getElem?_eq_getElem hk)).1
    exact Option.some.inj (hr.symm.trans hKnown)
  refine ⟨⟨?_, ?_, fun k term g hTerm hg => ?_, fun g hg => ?_⟩, hSize₂ ▸ Nat.le_add_right _ _,
    fun r hr => ?_⟩
  · rw [List.length_map, h.length_eq, List.length_map]
  · rw [hCount₂, hCount, List.length_map]
  · rw [List.getElem?_map] at hg
    obtain ⟨r, hr, rfl⟩ := Option.map_eq_some_iff.mp hg
    obtain ⟨cls, triples, hBody⟩ := hLeaf term (List.mem_of_getElem? hTerm)
    refine ⟨cls, triples, hBody, hs.point_ne hBody, ?_⟩
    have hId : (terms.map (·.1))[k]? = some term.1 := by rw [List.getElem?_map, hTerm]; rfl
    rw [(hEach k term.1 hId).2 cls triples (hFunctions ▸ hBody), hResult hr, hCount]
  · rw [hGrows.getElem?_eq hg, hFunctions]
  · obtain ⟨k, hk⟩ := List.mem_iff_getElem?.mp hr
    rw [hResult hk]
    exact Point.canonical_ofBasis _

/-- The last term gets its triple from the sum. -/
theorem Gains.concat (h : s.Gains terms x gradients s₁) {last : FunctionId × ℝ}
    (hOther : last.1 ∉ terms.map (·.1)) {cls : FunctionClass ℝ} {triples : List (Triple ℝ)}
    (hBody : s.functions[last.1.pos]? = some (.leaf cls triples))
    (hNew : ∀ t ∈ triples, t.point ≠ x) {g : Point ℝ}
    (hPush : pushTriple last.1 ⟨x, g, .ofValue ⟨s₁.valueCount⟩⟩
      { s₁ with valueCount := s₁.valueCount + 1 } = .ok () s') :
    s.Gains (terms ++ [last]) x (gradients ++ [g]) s' ∧ s'.basis = s₁.basis := by
  have hBody₁ := (h.others last.1 hOther).trans hBody
  rw [pushTriple_eq (s := { s₁ with valueCount := s₁.valueCount + 1 }) hBody₁] at hPush
  cases hPush
  have hUnchanged {t : FunctionId} (ht : t ≠ last.1) (body : FunctionBody ℝ) :
      (s₁.functions.set last.1.pos body)[t.pos]? = s₁.functions[t.pos]? :=
    List.getElem?_set_ne fun hSame => ht (congrArg FunctionId.mk hSame.symm)
  refine ⟨⟨?_, ?_, fun k term g' hTerm hg => ?_, fun t ht => ?_⟩, rfl⟩
  · rw [List.length_append, List.length_append, h.length]
    rfl
  · rw [List.length_append, ← Nat.add_assoc, ← h.valueCount]
    rfl
  · rcases Nat.lt_or_ge k terms.length with hInner | hEnd
    · rw [List.getElem?_append_left hInner] at hTerm
      rw [List.getElem?_append_left (h.length.symm ▸ hInner)] at hg
      obtain ⟨cls', triples', hOld, hApart, hTriple⟩ := h.triple k term g' hTerm hg
      refine ⟨cls', triples', hOld, hApart, (hUnchanged (fun hSame => hOther ?_) _).trans hTriple⟩
      exact hSame ▸ List.mem_map_of_mem (List.mem_of_getElem? hTerm)
    · rw [List.getElem?_append_right hEnd, List.getElem?_singleton] at hTerm
      rw [List.getElem?_append_right (h.length.symm ▸ hEnd), List.getElem?_singleton] at hg
      split at hTerm
      · cases hTerm
        obtain rfl : k = terms.length := by omega
        rw [if_pos (by rw [h.length, Nat.sub_self])] at hg
        cases hg
        refine ⟨cls, triples, hBody, hNew, ?_⟩
        rw [← h.valueCount]
        exact List.getElem?_set_self (List.getElem?_eq_some_iff.mp hBody₁).1
      · cases hTerm
  · rw [List.map_append, List.mem_append, not_or] at ht
    exact (hUnchanged (fun hSame => ht.2 (List.mem_singleton.mpr hSame)) _).trans (h.others t ht.1)

theorem exists_cancels (hs : s.WellFormed) {last : FunctionId × ℝ}
    (hDistinct : ((terms ++ [last]).map (·.1)).Nodup)
    (h : sumStationaryPoint f (terms ++ [last]) s = .ok x s') :
    x = .ofBasis ⟨s.basis.size⟩ ∧ s.basis.size < s'.basis.size ∧
      ∃ gradients, s.Cancels (terms ++ [last]) x gradients s' := by
  -- from `s` to `s₁` the point is registered, from there to `s₂` all terms but the last evaluated
  obtain ⟨s₁, rest, s₂, hLeaf, hWeight, hBasis, hFold, hPush⟩ :=
    exists_of_sumStationaryPoint_eq_ok List.getLast?_concat h
  rw [List.dropLast_concat] at hFold
  have hRegister : Leads False (newBasis (.stationaryPoint f)) s _ := leads_newBasis _
  obtain ⟨-, rfl, hSize, hCount, hFunctions⟩ := hRegister.of_eq_ok hBasis
  obtain ⟨rs, hAll, hRest⟩ := exists_evaluatesAll_of_foldlM hFold
  change rest = .weighted ((terms.map (·.2)).zip (rs.map (·.1))) at hRest
  rw [List.map_append, List.map_singleton] at hDistinct
  obtain ⟨hDistinct', -, hApart⟩ := List.nodup_append.mp hDistinct
  have hOther : last.1 ∉ terms.map (·.1) := fun hMem =>
    hApart last.1 hMem last.1 (List.mem_singleton_self _) rfl
  obtain ⟨hGains, hSize', hCanonical⟩ := gains_of_evaluatesAll hs hFunctions hCount hDistinct'
    (fun term hTerm => hLeaf term (List.mem_append_left _ hTerm)) hAll
  obtain ⟨cls, triples, hBody⟩ := hLeaf last (List.mem_append_right _ (List.mem_singleton_self _))
  rw [one_real] at hPush
  obtain ⟨hGains', hBasis'⟩ := hGains.concat hOther hBody (hs.point_ne hBody) hPush
  refine ⟨rfl, by rw [hBasis']; omega, _, hGains', ?_⟩
  have hWeight' : last.2 ≠ 0 := by simpa using hWeight
  have hLength : rs.length = terms.length := by rw [hAll.length_eq, List.length_map]
  rw [List.map_append, List.zip_append (by simp [hLength]), hRest]
  refine Point.weighted_concat_eq_zero (fun pair hPair => ?_) hWeight'
  obtain ⟨r, hr, hEq⟩ := List.mem_map.mp (List.of_mem_zip hPair).2
  exact hEq ▸ hCanonical r hr

theorem Cancels.known (h : s.Cancels terms x gradients s')
    (hSum : s'.functions[f.pos]? = some (.sum terms))
    (hBefore : ∀ term ∈ terms, term.1.pos < f.pos) :
    s'.known? x f = some (0, .weighted ((terms.map (·.2)).zip
      ((List.range terms.length).map fun k => .ofValue ⟨s.valueCount + k⟩))) := by
  have hKnown : List.Forall₂ (fun term r => s'.known? x term.1 = some r) terms (gradients.zip
      ((List.range terms.length).map fun k => .ofValue ⟨s.valueCount + k⟩)) := by
    refine List.forall₂_iff_get.mpr ⟨by simp [h.length], fun k hk hk' => ?_⟩
    have hGradient : k < gradients.length := h.length.symm ▸ hk
    obtain ⟨cls, triples, -, hNew, hBody⟩ := h.triple k _ _ (List.getElem?_eq_getElem hk)
      (List.getElem?_eq_getElem hGradient)
    rw [List.get_eq_getElem, known?_leaf hBody, List.find?_append, find?_eq_none_of_point_ne hNew]
    simp
  rw [known?_of_terms hSum hBefore hKnown, List.map_fst_zip (by simp [h.length]),
    List.map_snd_zip (by simp [h.length]), h.cancel]

theorem SingleValued.of_terms (hSum : s.functions[f.pos]? = some (.sum terms))
    (h : ∀ term ∈ terms, s.SingleValued term.1) : s.SingleValued f := by
  intro g cls triples hReaches hLeaf
  cases hReaches with
  | refl => cases hSum.symm.trans hLeaf
  | term hSum' hTerm hRest =>
    cases hSum.symm.trans hSum'
    exact h _ hTerm g cls triples hRest hLeaf

/-- A stationary point of a sum of distinct leaves is a new basis vector, at which every term gets
one triple with a new value, nothing else changes, and the gradients cancel. If they are the only
ones there, the oracle returns the zero point and the weighted sum of the new values, and declares
nothing. -/
theorem stationaryPoint_cancels (par : Parameters ℝ) (calls : List (Call ℝ))
    (hs : (new par).run calls = s) (hSum : s.functions[f.pos]? = some (.sum terms))
    (hDistinct : (terms.map (·.1)).Nodup) (h : stationaryPoint f s = .ok x s') :
    x = .ofBasis ⟨s.basis.size⟩ ∧ s.basis.size < s'.basis.size ∧
    ∃ gradients, s.Cancels terms x gradients s' ∧
      ((∀ term ∈ terms, ∀ cls triples, s.functions[term.1.pos]? = some (.leaf cls triples) →
          cls.singleValued = true) →
        oracle f x s' = .ok (0, .weighted ((terms.map (·.2)).zip
          ((List.range terms.length).map fun k => .ofValue ⟨s.valueCount + k⟩))) s') := by
  have hWell : s.WellFormed := hs ▸ (wellFormed_new par).run calls
  obtain ⟨hNonempty, hTerms⟩ := hWell.sums hSum
  have hPrecedes : s.Precedes s' := (within_stationaryPoint admits_precedes f).of_eq_ok h
  have hStanding := (isDeclaration_stationaryPoint f).succeed h
  obtain ⟨hLive, s₁, hCall, rfl⟩ := declaring_eq_ok_iff.mp h
  rw [lookup_bind_of_some hSum] at hCall
  obtain ⟨others, last, rfl⟩ := List.eq_nil_or_concat' terms |>.resolve_left hNonempty
  obtain ⟨hPoint, hSize, gradients, hCancels⟩ := exists_cancels hWell hDistinct hCall
  have hCancels' : s.Cancels (others ++ [last]) x gradients s₁.touch :=
    ⟨⟨hCancels.length, hCancels.valueCount, hCancels.triple, hCancels.others⟩, hCancels.cancel⟩
  refine ⟨hPoint, hSize, gradients, hCancels', fun hSingle => ?_⟩
  have hSum' := hPrecedes.sum hSum
  have hKnown := hCancels'.known hSum' fun term hTerm => (hTerms term hTerm).1
  have hSingle' : s₁.touch.SingleValued f := by
    refine .of_terms hSum' fun term hTerm => ?_
    obtain ⟨k, hk⟩ := List.mem_iff_getElem?.mp hTerm
    have hBound : k < gradients.length := hCancels.length ▸ (List.getElem?_eq_some_iff.mp hk).1
    obtain ⟨cls, triples, hBody, -, hBody'⟩ :=
      hCancels'.triple k term _ hk (List.getElem?_eq_getElem hBound)
    exact singleValued_of_leaf hBody' (hSingle term hTerm cls triples hBody)
  have hBelow : x.Below s₁.touch.basis.size := hPoint ▸ Point.below_ofBasis hSize
  refine declaring_eq_ok_iff.mpr ⟨(congrArg Standing.poisoned hStanding).trans hLive, s₁.touch,
    checkPoint_bind_eq_ok_iff.mpr ⟨hBelow, evalOracle_of_known hSingle' hKnown⟩, ?_⟩
  exact (touch_touch s₁).symm

section Example

attribute [local instance] atLeastTwo_two

/-- Two smooth functions and a weighted sum of them. -/
noncomputable def twoTerms : Session ℝ where
  parameters := { onePoint with maxBasis := 2 }
  basis := ⟨2, []⟩
  valueCount := 0
  functions := [.leaf (.smooth 1) [], .leaf (.smooth 1) [], .sum [(⟨0⟩, 1), (⟨1⟩, 2)]]
  declared := ∅
  metric := none
  status := .unsolved
  failure := none
  poisoned := false

theorem run_twoTerms : (new { onePoint with maxBasis := 2 }).run
    [.declareFunction (.smooth 1), .declareFunction (.smooth 1),
      .declareSum [(⟨0⟩, 1), (⟨1⟩, 2)]] = twoTerms := by
  have hValid : (FunctionClass.smooth (1 : ℝ)).validate = .ok () :=
    if_pos (by simp)
  have hDeclare (s : Session ℝ) (hLive : s.poisoned = false) :
      (Call.declareFunction (.smooth 1)).perform.after s =
        Session.touch { s with functions := s.functions ++ [.leaf (.smooth 1) []] } := by
    have hOk : declareFunction (.smooth 1) s = .ok ⟨s.functions.length⟩
        (Session.touch { s with functions := s.functions ++ [.leaf (.smooth 1) []] }) :=
      declaring_eq_ok_iff.mpr ⟨hLive, _, by rw [hValid]; rfl, rfl⟩
    change after (declareFunction (.smooth 1) >>= fun _ => pure ()) s = _
    rw [after_bind, hOk]
    rfl
  rw [run, List.foldl_cons, hDeclare _ rfl, List.foldl_cons, hDeclare _ rfl]
  rfl

theorem stationaryPoint_twoTerms : ∃ x s', stationaryPoint ⟨2⟩ twoTerms = .ok x s' := by
  have hEval : evalOracle (.ofBasis ⟨0⟩) ⟨0⟩
      { twoTerms with basis := ⟨2, [.stationaryPoint ⟨2⟩]⟩ } =
      .ok (.ofBasis ⟨1⟩, .ofValue ⟨0⟩)
        { twoTerms with
          basis := ⟨2, [.stationaryPoint ⟨2⟩, .gradient ⟨0⟩]⟩
          valueCount := 1
          functions := [.leaf (.smooth 1) [⟨.ofBasis ⟨0⟩, .ofBasis ⟨1⟩, .ofValue ⟨0⟩⟩],
            .leaf (.smooth 1) [], .sum [(⟨0⟩, 1), (⟨1⟩, 2)]] } := by
    rw [evalOracle]
    rfl
  have hLeaf : ∀ t ∈ [((⟨0⟩ : FunctionId), (1 : ℝ)), (⟨1⟩, 2)], ∃ cls triples,
      twoTerms.functions[t.1.pos]? = some (.leaf cls triples) := by
    simp [twoTerms]
  exact exists_stationaryPoint_of_evalOracle rfl rfl hLeaf (by simp) rfl hEval ⟨_, _, rfl⟩

theorem stationaryPoint_cancels_twoTerms : ∃ x s',
    stationaryPoint ⟨2⟩ twoTerms = .ok x s' ∧ x = .ofBasis ⟨0⟩ ∧
    (∃ gradients, twoTerms.Cancels [(⟨0⟩, 1), (⟨1⟩, 2)] x gradients s') ∧
    oracle ⟨2⟩ x s' = .ok (0, .weighted [(1, .ofValue ⟨0⟩), (2, .ofValue ⟨1⟩)]) s' := by
  obtain ⟨x, s', hFound⟩ := stationaryPoint_twoTerms
  obtain ⟨hPoint, -, gradients, hCancels, hOracle⟩ :=
    stationaryPoint_cancels _ _ run_twoTerms (f := ⟨2⟩) rfl (by decide) hFound
  refine ⟨x, s', hFound, hPoint, ⟨gradients, hCancels⟩, hOracle ?_⟩
  simp only [List.forall_mem_cons]
  refine ⟨?_, ?_, fun _ hNone => nomatch hNone⟩ <;>
  · intro cls triples hLeaf
    cases hLeaf
    rfl

end Example

end Session

end PerformanceEstimation
