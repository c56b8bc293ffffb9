import Mathlib
import PerformanceEstimation.Proofs.Session.Evaluation

/-!
# The calls as steps

Every call of the interface checks what it is given before it makes a step with it, so from a
well-formed session each call takes steps only, whatever its arguments are and however it ends
(`Call.steps_perform`). Hence every session that is reached from a new one is well-formed.

`Call.Fitting` singles out the calls whose triples fit those before them.
-/

set_option autoImplicit false

namespace PerformanceEstimation

open Session

variable {α : Type}

/-- The call adds only triples that fit: none of its own choice, by a proximal step only at a point
which names the new basis vector, and to the last term of a sum only if it is no other term too. -/
def Call.Fitting [Scalar α] (s : Session α) : Call α → Prop
  | addPoint .. => False
  | proximalStep _ x step =>
    ∃ term ∈ (x - step * (Point.ofBasis ⟨s.basis.size⟩ : Point α)).terms, s.basis.size ≤ term.1.pos
  | stationaryPoint f => ∀ terms, s.functions[f.pos]? = some (.sum terms) →
    ∀ last ∈ terms.getLast?, ∀ term ∈ terms.dropLast, term.1 ≠ last.1
  | _ => True

namespace Action

section Checks

variable {s : Session α}

theorem checkPoint_eq_ok_iff {x : Point α} {u : Unit} :
    checkPoint x s = .ok u s ↔ x.Below s.basis.size := by
  simp only [checkPoint, Bind.bind, EStateM.bind, get, getThe, MonadStateOf.get, EStateM.get]
  cases hFind : x.terms.find? (fun term => !s.basis.contains term.1) with
  | some unknown =>
    refine iff_of_false (by rintro ⟨⟩) fun hBelow => ?_
    have hContained := hBelow _ (List.mem_of_find?_eq_some hFind)
    have hUnknown := List.find?_some hFind
    simp [Basis.contains, hContained] at hUnknown
  | none =>
    refine ⟨fun _ term hTerm => ?_, fun _ => rfl⟩
    simpa [Basis.contains] using List.find?_eq_none.mp hFind term hTerm

theorem below_of_checkExpression {e : Expression α} {u : Unit}
    (h : checkExpression e s = .ok u s) : e.Below s.basis.size s.valueCount := by
  simp only [checkExpression, Bind.bind, EStateM.bind, get, getThe, MonadStateOf.get,
    EStateM.get] at h
  cases hGram : (e.gram.flatMap fun term => [term.1.row, term.1.col]).find?
      (fun i => !s.basis.contains i) with
  | some unknown =>
    rw [hGram] at h
    cases h
  | none =>
    rw [hGram] at h
    cases hValues : e.values.find? (fun term => decide (s.valueCount ≤ term.1.pos)) with
    | some unknown =>
      rw [hValues] at h
      cases h
    | none =>
      have hKnown := List.find?_eq_none.mp hGram
      refine ⟨fun term hTerm => ⟨?_, ?_⟩, fun term hTerm => ?_⟩
      · have hRow := hKnown term.1.row (List.mem_flatMap.mpr ⟨term, hTerm, by simp⟩)
        simpa [Basis.contains] using hRow
      · have hCol := hKnown term.1.col (List.mem_flatMap.mpr ⟨term, hTerm, by simp⟩)
        simpa [Basis.contains] using hCol
      · simpa using List.find?_eq_none.mp hValues term hTerm

end Checks

variable [Scalar α] {β γ : Type} {strict : Prop} {s : Session α}

section Rules

variable {Q : γ → Session α → Prop}

theorem leads_get_bind {next : Session α → Action α γ} (h : Leads strict (next s) s Q) :
    Leads strict (get >>= next) s Q :=
  h

theorem leads_fail_bind (e : ConstructionError) (next : β → Action α γ) :
    Leads strict (fail e >>= next) s Q :=
  .refl

theorem leads_forM {act : β → Action α PUnit} {P : β → Prop} {bs : List β}
    (h : ∀ b, Leads strict (act b) s fun _ s' => s' = s ∧ P b) :
    Leads strict (bs.forM act) s fun _ s' => s' = s ∧ ∀ b ∈ bs, P b := by
  induction bs with
  | nil => exact leads_pure ⟨rfl, fun b hb => nomatch hb⟩
  | cons b bs ih =>
    refine (h b).bind ?_
    rintro _ _ - ⟨rfl, hb⟩
    exact ih.mono fun _ _ _ hRest => ⟨hRest.1, List.forall_mem_cons.mpr ⟨hb, hRest.2⟩⟩

end Rules

section Pieces

theorem leads_newBasis (origin : BasisOrigin) :
    Leads strict (newBasis origin) s fun p s' =>
      p = .ofBasis ⟨s.basis.size⟩ ∧ s'.basis.size = s.basis.size + 1 ∧
        s'.valueCount = s.valueCount ∧ s'.functions = s.functions := by
  unfold Leads
  rw [newBasis_eq]
  cases hRoom : s.basis.register? origin with
  | none => exact .refl
  | some new =>
    obtain ⟨hIndex, -, -⟩ := Basis.eq_of_register? hRoom
    exact ⟨.single (.basis hRoom), by rw [hIndex], Basis.size_of_register? hRoom, rfl, rfl⟩

theorem leads_nextValue : Leads strict nextValue s fun e s' =>
    e = .ofValue ⟨s.valueCount⟩ ∧ s'.basis = s.basis ∧ s'.valueCount = s.valueCount + 1 ∧
      s'.functions = s.functions :=
  ⟨.single (.value s), rfl, rfl, rfl, rfl⟩

theorem leads_pushTriple (f : FunctionId) {t : Triple α}
    (hBelow : t.Below s.basis.size s.valueCount)
    (hFits : strict → ∀ {cls triples}, s.functions[f.pos]? = some (.leaf cls triples) →
      cls.Fits triples t) :
    Leads strict (pushTriple f t) s fun _ _ => True := by
  refine (reads_lookup f).bind_leads fun body hLookup => ?_
  have hBody := lookup_eq_ok_iff.mp hLookup
  cases body with
  | leaf cls triples =>
    exact ⟨.single (.triple hBody hBelow fun hStrict => hFits hStrict hBody), trivial⟩
  | sum terms => exact leads_fail _

theorem leads_pushConstraint (c : Constraint α) (origin : ConstraintOrigin) :
    Leads strict (pushConstraint c origin) s fun _ _ => True := by
  refine (reads_checkExpression c.lhs).bind_leads fun _ hCheck => leads_get_bind ?_
  split
  · rename_i hPush
    exact ⟨.single (.constraint (below_of_checkExpression hCheck) hPush), trivial⟩
  · exact leads_throw _

end Pieces

section Declarations

theorem leads_declareFunction (cls : FunctionClass α) :
    Leads strict (declareFunction cls) s fun _ _ => True := by
  refine Leads.declaring ?_
  split
  · rename_i hValid
    exact ⟨.single (.leaf s hValid), trivial⟩
  · exact leads_throw _

theorem leads_checkSum (terms : List (FunctionId × α)) :
    Leads strict (checkSum terms) s fun _ s' => s' = s ∧ terms ≠ [] ∧
      ∀ term ∈ terms, term.1.pos < s.functions.length ∧ Scalar.isFinite term.2 = true := by
  refine leads_get_bind ?_
  dsimp only
  split
  · exact leads_fail_bind _ _
  · rename_i hNonempty
    refine Leads.mono (leads_forM fun term => ?_)
      fun _ _ _ h => ⟨h.1, by simpa using hNonempty, h.2⟩
    refine (reads_lookup term.1).bind_leads fun body hLookup => ?_
    have hDeclared := (List.getElem?_eq_some_iff.mp (lookup_eq_ok_iff.mp hLookup)).1
    split
    · rename_i hFinite
      exact leads_pure ⟨rfl, hDeclared, hFinite⟩
    · exact leads_fail _

theorem leads_declareSum (terms : List (FunctionId × α)) :
    Leads strict (declareSum terms) s fun _ _ => True := by
  refine Leads.declaring ((leads_checkSum terms).bind ?_)
  rintro _ _ - ⟨rfl, hNonempty, hTerms⟩
  exact ⟨.single (.sum hNonempty hTerms), trivial⟩

theorem leads_newGradient (f : FunctionId) :
    Leads strict (newGradient f) s fun p s' =>
      p = .ofBasis ⟨s.basis.size⟩ ∧ s'.basis.size = s.basis.size + 1 ∧
        s'.valueCount = s.valueCount ∧ s'.functions = s.functions :=
  Leads.declaring ((reads_lookup f).bind_leads fun _ _ => leads_newBasis _)

theorem leads_newValue : Leads strict newValue s fun e s' =>
    e = .ofValue ⟨s.valueCount⟩ ∧ s'.basis = s.basis ∧ s'.valueCount = s.valueCount + 1 ∧
      s'.functions = s.functions :=
  Leads.declaring leads_nextValue

theorem leads_addPoint (f : FunctionId) {x g : Point α} {v : Expression α}
    (hFits : strict → ∀ {cls triples}, s.functions[f.pos]? = some (.leaf cls triples) →
      cls.Fits triples ⟨x, g, v⟩) :
    Leads strict (addPoint f x g v) s fun _ _ => True := by
  refine Leads.declaring ((reads_lookup f).bind_leads fun _ _ => ?_)
  refine (reads_checkPoint x).bind_leads fun _ hPoint => ?_
  refine (reads_checkPoint g).bind_leads fun _ hGradient => ?_
  refine (reads_checkExpression v).bind_leads fun _ hValue => ?_
  exact leads_pushTriple f ⟨checkPoint_eq_ok_iff.mp hPoint, checkPoint_eq_ok_iff.mp hGradient,
    below_of_checkExpression hValue⟩ hFits

theorem leads_setMetric (e : Expression α) :
    Leads strict (setMetric e) s fun _ _ => True := by
  refine Leads.declaring (leads_get_bind ?_)
  split
  · exact leads_fail_bind _ _
  · rename_i hNone
    refine (reads_checkExpression e).bind_leads fun _ hCheck => ?_
    exact ⟨.single (.metric (by simpa using hNone) (below_of_checkExpression hCheck)), trivial⟩

end Declarations

section Evaluations

theorem fits_of_later (hs : s.WellFormed) {f : ℕ} {cls : FunctionClass α}
    {triples : List (Triple α)} (hLeaf : s.functions[f]? = some (.leaf cls triples)) {t : Triple α}
    (hLater : ∃ term ∈ t.point.terms, s.basis.size ≤ term.1.pos) : cls.Fits triples t :=
  cls.fits_of_fresh (fun old hOld => (hs.triples hLeaf old hOld).point) hLater

theorem leads_oracle (hs : s.WellFormed) (f : FunctionId) (x : Point α) :
    Leads strict (oracle f x) s fun _ _ => True :=
  Leads.declaring ((reads_checkPoint x).bind_leads fun _ hCheck =>
    (leads_evalOracle hs (checkPoint_eq_ok_iff.mp hCheck) f).mono fun _ _ _ _ => trivial)

theorem leads_value (hs : s.WellFormed) (f : FunctionId) (x : Point α) :
    Leads strict (value f x) s fun _ _ => True :=
  Leads.declaring ((reads_checkPoint x).bind_leads fun _ hCheck =>
    (leads_evalValue hs (checkPoint_eq_ok_iff.mp hCheck) f).mono fun _ _ _ _ => trivial)

theorem leads_proximalStep (hs : s.WellFormed) (f : FunctionId) (x : Point α) (step : α)
    (hLater : strict → ∃ term ∈ (x - step * (Point.ofBasis ⟨s.basis.size⟩ : Point α)).terms,
      s.basis.size ≤ term.1.pos) :
    Leads strict (proximalStep f x step) s fun _ _ => True := by
  refine (leads_newGradient f).bind ?_
  rintro _ s₁ - ⟨rfl, -, -, hFunctions₁⟩
  refine leads_newValue.bind ?_
  rintro v s₂ - ⟨-, -, -, hFunctions₂⟩
  refine (leads_addPoint f fun hStrict cls triples hLeaf => ?_).bind fun _ _ _ _ =>
    leads_pure trivial
  rw [hFunctions₂, hFunctions₁] at hLeaf
  exact fits_of_later hs hLeaf (hLater hStrict)

theorem leads_leafStationaryPoint (hs : s.WellFormed) (f : FunctionId) :
    Leads strict (leafStationaryPoint f) s fun _ _ => True := by
  refine (leads_newBasis _).bind ?_
  rintro _ s₁ - ⟨rfl, hSize₁, -, hFunctions₁⟩
  refine leads_nextValue.bind ?_
  rintro _ s₂ - ⟨rfl, hBasis₂, hCount₂, hFunctions₂⟩
  refine (leads_pushTriple f (.mk ?_ ?_ ?_) fun hStrict cls triples hLeaf => ?_).bind
    fun _ _ _ _ => leads_pure trivial
  · exact Point.below_ofBasis (by simp only [hBasis₂, hSize₁]; omega)
  · exact Point.below_zero
  · exact Expression.below_ofValue (by simp only [hCount₂]; omega)
  · rw [hFunctions₂, hFunctions₁] at hLeaf
    exact fits_of_later hs hLeaf ⟨_, List.mem_singleton_self _, le_rfl⟩

theorem leads_checkLeaf (f : FunctionId) (term : FunctionId × α) :
    Leads strict (do
      match ← lookup term.1 with
      | .leaf .. => return
      | .sum _ => fail (.invalidComposite f .termNotLeaf)) s fun _ s' => s' = s ∧
        ∃ cls triples, s.functions[term.1.pos]? = some (.leaf cls triples) := by
  refine (reads_lookup term.1).bind_leads fun body hLookup => ?_
  cases body with
  | leaf cls triples => exact leads_pure ⟨rfl, cls, triples, lookup_eq_ok_iff.mp hLookup⟩
  | sum terms => exact leads_fail _

theorem leads_sumStationaryPoint (hs : s.WellFormed) (f : FunctionId)
    (terms : List (FunctionId × α))
    (hOther : strict → ∀ last ∈ terms.getLast?, ∀ term ∈ terms.dropLast, term.1 ≠ last.1) :
    Leads strict (sumStationaryPoint f terms) s fun _ _ => True := by
  -- evaluating the other terms leaves the last one as it is, unless it is one of them
  refine (leads_forM fun term => leads_checkLeaf f term).bind ?_
  rintro _ s - ⟨rfl, hLeaf⟩
  cases hLast : terms.getLast? with
  | none => exact leads_fail _
  | some last =>
    dsimp only
    split
    · exact leads_fail_bind _ _
    refine (leads_newBasis _).bind ?_
    rintro _ s₁ hSteps₁ ⟨rfl, hSize₁, -, hFunctions₁⟩
    have hx : (Point.ofBasis ⟨s.basis.size⟩ : Point α).Below s₁.basis.size :=
      Point.below_ofBasis (by simp only [hSize₁]; omega)
    refine (Leads.foldlM (P := fun (g : Point α) s' => g.Below s'.basis.size ∧
      (strict → s'.functions[last.1.pos]? = s.functions[last.1.pos]?)) ?_
      ⟨Point.below_zero, fun _ => by rw [hFunctions₁]⟩).bind ?_
    · rintro g s₂ ⟨t, w⟩ hTerm hSteps₂ ⟨hg, hFrame⟩
      obtain ⟨cls, triples, hOld⟩ := hLeaf (t, w) (List.mem_of_mem_dropLast hTerm)
      have hSteps : Steps strict s s₂ := hSteps₁.trans hSteps₂
      obtain ⟨triples', hNow, -⟩ := hSteps.precedes.leaf hOld
      refine (leads_evalOracle_leaf (hSteps.wellFormed hs)
        (hx.mono hSteps₂.precedes.size_le) hNow).bind ?_
      rintro ⟨gt, vt⟩ s₃ hSteps₃ ⟨hgt, -, hSame⟩
      refine leads_pure ⟨(hg.mono hSteps₃.precedes.size_le).axpy w hgt, fun hStrict => ?_⟩
      have hDistinct : last.1.pos ≠ t.pos := fun hPos =>
        hOther hStrict last hLast (t, w) hTerm (congrArg FunctionId.mk hPos.symm)
      exact (hSame _ hDistinct).trans (hFrame hStrict)
    · rintro rest s₂ hSteps₂ ⟨hRest, hFrame⟩
      refine leads_nextValue.bind ?_
      rintro _ s₃ - ⟨rfl, hBasis₃, hCount₃, hFunctions₃⟩
      refine (leads_pushTriple last.1 (.mk ?_ ?_ ?_) fun hStrict cls triples hNow => ?_).bind
        fun _ _ _ _ => leads_pure trivial
      · rw [hBasis₃]
        exact hx.mono hSteps₂.precedes.size_le
      · rw [hBasis₃]
        exact hRest.scale _
      · exact Expression.below_ofValue (by simp only [hCount₃]; omega)
      · rw [hFunctions₃, hFrame hStrict] at hNow
        exact fits_of_later hs hNow ⟨_, List.mem_singleton_self _, le_rfl⟩

theorem leads_stationaryPoint (hs : s.WellFormed) (f : FunctionId)
    (hOther : strict → ∀ terms, s.functions[f.pos]? = some (.sum terms) →
      ∀ last ∈ terms.getLast?, ∀ term ∈ terms.dropLast, term.1 ≠ last.1) :
    Leads strict (stationaryPoint f) s fun _ _ => True := by
  refine Leads.declaring ((reads_lookup f).bind_leads fun body hLookup => ?_)
  cases body with
  | leaf cls triples => exact leads_leafStationaryPoint hs f
  | sum terms =>
    exact leads_sumStationaryPoint hs f terms fun hStrict =>
      hOther hStrict terms (lookup_eq_ok_iff.mp hLookup)

end Evaluations

end Action

section Runs

open PerformanceEstimation.Action

variable [Scalar α] {strict : Prop} {s : Session α}

theorem Call.steps_perform (hs : s.WellFormed) (call : Call α)
    (hFitting : strict → call.Fitting s) : Steps strict s (call.perform.after s) := by
  cases call with
  | configure change => exact .single (.configure s change)
  | declareFunction cls => exact (leads_declareFunction cls).steps_discard
  | declareSum terms => exact (leads_declareSum terms).steps_discard
  | initialPoint =>
    exact ((within_newBasis admitsUpkeep_steps _).declaring admitsUpkeep_steps).discard
      admitsUpkeep_steps s
  | newValue => exact leads_newValue.steps_discard
  | newGradient f => exact (leads_newGradient f).steps_discard
  | stationaryPoint f => exact (leads_stationaryPoint hs f hFitting).steps_discard
  | oracle f x => exact (leads_oracle hs f x).steps_discard
  | gradient f x =>
    exact ((leads_oracle hs f x).bind (R := fun _ _ => True) fun _ _ _ _ =>
      leads_pure trivial).steps_discard
  | value f x => exact (leads_value hs f x).steps_discard
  | addPoint f x g v => exact (leads_addPoint f fun hStrict => (hFitting hStrict).elim).steps
  | initialCondition c =>
    exact (Leads.declaring (Q := fun _ _ => True) (leads_pushConstraint c _)).steps
  | functionConstraint f c =>
    exact (Leads.declaring (Q := fun _ _ => True) ((reads_lookup f).bind_leads fun _ _ =>
      leads_pushConstraint c _)).steps
  | setMetric e => exact (leads_setMetric e).steps
  | gradientStep f x step =>
    exact ((leads_oracle hs f x).bind (R := fun _ _ => True) fun _ _ _ _ =>
      leads_pure trivial).steps_discard
  | proximalStep f x step => exact (leads_proximalStep hs f x step hFitting).steps_discard
  | compile => exact (within_compile admitsUpkeep_steps).discard admitsUpkeep_steps s
  | solve b => exact (within_solve admitsUpkeep_steps b).discard admitsUpkeep_steps s

theorem Session.WellFormed.run (hs : s.WellFormed) (calls : List (Call α)) :
    (s.run calls).WellFormed := by
  induction calls generalizing s with
  | nil => exact hs
  | cons call calls ih =>
    have hSteps : Steps False s (call.perform.after s) := call.steps_perform hs False.elim
    exact ih (hSteps.wellFormed hs)

/-- Every session that is reached from a new one is well-formed, and it stays in place in every
session that is reached from it. -/
theorem Session.wellFormed_and_precedes_run (par : Parameters α) (calls more : List (Call α)) :
    ((new par).run calls).WellFormed ∧
      ((new par).run calls).Precedes ((new par).run (calls ++ more)) := by
  refine ⟨(wellFormed_new par).run calls, ?_⟩
  rw [run_append]
  exact precedes_run _ more

end Runs

end PerformanceEstimation
