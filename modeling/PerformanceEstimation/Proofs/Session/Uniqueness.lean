import Mathlib
import PerformanceEstimation.Proofs.Reals
import PerformanceEstimation.Proofs.Session.Recall

/-!
# One value for a leaf and a point

Two triples of a leaf at equal points carry the same value, and a leaf of a class with single
gradients has no two such triples. Every step keeps this whose new triple fits those before it
(`Step.oneValue`). Of the calls, `addPoint` is free to break it, and so is a stationary point of a
sum that lists its last function twice: the triple of the last term gets a value of its own,
although the other term has evaluated the function at the same point (`not_oneValue_of_repeated`).
-/

set_option autoImplicit false

namespace PerformanceEstimation

open Session

section Proximal

open Scalar

/-- The steps of a session use unit coefficients, which do not make a number zero. -/
class Scalar.UnitLaws (α : Type) [Scalar α] : Prop where
  isZero_mul_one : ∀ a : α, isZero (a * 1) = isZero a
  isZero_neg_one_mul : ∀ a : α, isZero (-1 * a) = isZero a
  isZero_zero_add : ∀ a : α, isZero (0 + a) = isZero a

instance Scalar.instUnitLawsReal : Scalar.UnitLaws ℝ where
  isZero_mul_one a := by simp
  isZero_neg_one_mul a := by simp
  isZero_zero_add a := by simp

variable {α : Type} [Scalar α]

theorem Terms.mem_addThen_id {κ : Type} [Key κ] {k : κ} {a : α} {t : Terms κ α}
    (hNew : ∀ term ∈ t, term.1 ≠ k) (hNonzero : Scalar.isZero (0 + a) = false) :
    (k, 0 + a) ∈ addThen k a id t := by
  induction t with
  | nil => simp [addThen, consNonzero, hNonzero]
  | cons head t ih =>
    obtain ⟨hHead, hRest⟩ := List.forall_mem_cons.mp hNew
    rw [addThen]
    split
    · simp [consNonzero, hNonzero]
    · rw [if_neg (Ne.symm hHead)]
      exact List.mem_cons_of_mem _ (ih hRest)

theorem Point.exists_new_term [Scalar.UnitLaws α] {x : Point α} {i : BasisIndex} {step : α}
    (hNew : ∀ term ∈ x.terms, term.1 ≠ i) (hStep : Scalar.isZero step = false) :
    ∃ term ∈ (x - step * (Point.ofBasis i : Point α)).terms, term.1 = i := by
  have hScaled : Scalar.isZero (step * 1) = false := by
    rw [Scalar.UnitLaws.isZero_mul_one, hStep]
  have hDirection : step * (Point.ofBasis i : Point α) = ⟨[(i, step * 1)]⟩ := by
    change (Point.ofBasis i).scale step = _
    simp [Point.scale, Point.ofBasis, hStep, hScaled]
  rw [hDirection]
  refine ⟨_, Terms.mem_addThen_id hNew ?_, rfl⟩
  rw [Scalar.UnitLaws.isZero_zero_add, Scalar.UnitLaws.isZero_neg_one_mul, hScaled]

end Proximal

variable {α : Type} [Scalar α]

namespace Session

/-- Of two triples of a leaf at equal points, the values are equal and the class has several
gradients at a point. -/
def OneValue (s : Session α) : Prop :=
  ∀ (f : ℕ) (cls : FunctionClass α) (triples : List (Triple α)),
    s.functions[f]? = some (.leaf cls triples) → triples.Pairwise fun t t' =>
      (t.point == t'.point) = true → t.value = t'.value ∧ cls.singleValued = false

theorem oneValue_new (par : Parameters α) : (new par).OneValue := by
  intro f cls triples h
  cases h

theorem OneValue.of_functions {s s' : Session α} (hs : s.OneValue)
    (h : s'.functions = s.functions) : s'.OneValue :=
  fun f cls triples hLeaf => hs f cls triples (h ▸ hLeaf)

variable [PartialEquivBEq α]

/-- The triple that fits agrees with every earlier one at its point, as these agree with the first
one there. -/
theorem pairwise_append_of_fits {cls : FunctionClass α} {triples : List (Triple α)} {t : Triple α}
    (hOld : triples.Pairwise fun t t' => (t.point == t'.point) = true →
      t.value = t'.value ∧ cls.singleValued = false)
    (hFits : cls.Fits triples t) :
    (triples ++ [t]).Pairwise fun t t' => (t.point == t'.point) = true →
      t.value = t'.value ∧ cls.singleValued = false := by
  refine List.pairwise_append.mpr ⟨hOld, List.pairwise_singleton _ _, ?_⟩
  intro old hMem new hLast hEqual
  rw [List.mem_singleton.mp hLast] at hEqual ⊢
  have hSymm : Std.Symm fun a b : Triple α => (a.point == b.point) = true → a.value = b.value :=
    ⟨fun a b h hba => (h (BEq.symm hba)).symm⟩
  have hValues := List.Pairwise.forall_of_forall (l := triples) (fun a _ _ => rfl)
    (hOld.imp fun h hEqual => (h hEqual).1)
  cases hFind : triples.find? (·.point == t.point) with
  | none =>
    have hDifferent := List.find?_eq_none.mp hFind old hMem
    exact (hDifferent hEqual).elim
  | some first =>
    obtain ⟨hSeveral, hValue⟩ := hFits first hFind
    have hFirst : (first.point == t.point) = true := by simpa using List.find?_some hFind
    refine ⟨?_, hSeveral⟩
    rw [hValue]
    exact hValues hMem (List.mem_of_find?_eq_some hFind)
      (BEq.trans hEqual (BEq.symm hFirst))

theorem Step.oneValue {s s' : Session α} (h : Step True s s') (hs : s.OneValue) : s'.OneValue := by
  cases h with
  | poison | touch | outcome | configure | basis | value | constraint | metric =>
    exact hs.of_functions rfl
  | leaf hValid =>
    intro f cls triples hLeaf
    rcases eq_or_getElem?_of_append hLeaf with hOld | ⟨-, hNew⟩
    · exact hs f cls triples hOld
    · cases hNew
      exact .nil
  | sum hNonempty hTerms =>
    intro f cls triples hLeaf
    rcases eq_or_getElem?_of_append hLeaf with hOld | ⟨-, hNew⟩
    · exact hs f cls triples hOld
    · cases hNew
  | triple hLeaf hBelow hFits =>
    intro f cls triples hLeaf'
    rcases eq_or_getElem?_of_set hLeaf' with hOld | ⟨-, hNew⟩
    · exact hs f cls triples hOld
    · cases hNew
      exact pairwise_append_of_fits (hs _ _ _ hLeaf) (hFits trivial)

theorem Steps.oneValue {s s' : Session α} (h : Steps True s s') (hs : s.OneValue) :
    s'.OneValue := by
  induction h with
  | refl => exact hs
  | tail _ hStep ih => exact hStep.oneValue ih

end Session

section Runs

/-- The call leaves the choice of triples to the session: it adds none of its own, makes no proximal
step of size zero, nor one from a point that names the vector to be registered, and asks for no
stationary point of a sum which lists its last function twice. -/
def Call.Plain (s : Session α) : Call α → Prop
  | addPoint .. => False
  | proximalStep _ x step =>
    Scalar.isZero step = false ∧ ∀ term ∈ x.terms, term.1 ≠ ⟨s.basis.size⟩
  | stationaryPoint f => ∀ terms, s.functions[f.pos]? = some (.sum terms) →
    ∀ last ∈ terms.getLast?, ∀ term ∈ terms.dropLast, term.1 ≠ last.1
  | _ => True

def Session.RunsPlain (s : Session α) : List (Call α) → Prop
  | [] => True
  | call :: calls => call.Plain s ∧ (call.perform.after s).RunsPlain calls

theorem Call.Plain.fitting [Scalar.UnitLaws α] {s : Session α} {call : Call α}
    (h : call.Plain s) : call.Fitting s := by
  cases call with
  | addPoint f x g v => exact h
  | proximalStep f x step =>
    obtain ⟨term, hTerm, hKey⟩ := Point.exists_new_term h.2 h.1
    exact ⟨term, hTerm, by rw [hKey]⟩
  | stationaryPoint f => exact h
  | _ => trivial

variable [PartialEquivBEq α] [Scalar.UnitLaws α]

theorem Session.OneValue.run {s : Session α} (hs : s.WellFormed) (hOne : s.OneValue)
    {calls : List (Call α)} (h : s.RunsPlain calls) : (s.run calls).OneValue := by
  induction calls generalizing s with
  | nil => exact hOne
  | cons call calls ih =>
    have hSteps : Steps True s (call.perform.after s) :=
      call.steps_perform hs fun _ => h.1.fitting
    exact ih (hSteps.wellFormed hs) (hSteps.oneValue hOne) h.2

/-- A leaf has one value at a point, and one triple if its class has single gradients, in every
session that plain calls reach. -/
theorem Session.oneValue_run (par : Parameters α) {calls : List (Call α)}
    (h : (new par).RunsPlain calls) : ((new par).run calls).OneValue :=
  OneValue.run (wellFormed_new par) (oneValue_new par) h

end Runs

theorem Session.oneValue_run_proximal : (new { onePoint with maxBasis := 3 }).RunsPlain
      [.declareFunction .convex, .stationaryPoint ⟨0⟩, .proximalStep ⟨0⟩ (.ofBasis ⟨0⟩) 1,
        .oracle ⟨0⟩ (.ofBasis ⟨0⟩)] ∧
    ((new { onePoint with maxBasis := 3 }).run
      [.declareFunction .convex, .stationaryPoint ⟨0⟩, .proximalStep ⟨0⟩ (.ofBasis ⟨0⟩) 1,
        .oracle ⟨0⟩ (.ofBasis ⟨0⟩)]).OneValue := by
  have hPlain : (new { onePoint with maxBasis := 3 }).RunsPlain
      [.declareFunction .convex, .stationaryPoint ⟨0⟩, .proximalStep ⟨0⟩ (.ofBasis ⟨0⟩) 1,
        .oracle ⟨0⟩ (.ofBasis ⟨0⟩)] := by
    refine ⟨trivial, fun terms hSum => ?_, ⟨by simp, fun term hTerm hId => ?_⟩, trivial, trivial⟩
    · cases hSum
    · rw [List.mem_singleton.mp hTerm] at hId
      cases hId
  exact ⟨hPlain, oneValue_run _ hPlain⟩

section Repetition

open PerformanceEstimation.Action

variable [PartialEquivBEq α] {s s' : Session α} {x : Point α}

omit [PartialEquivBEq α] in
theorem within_foldlM_evalOracle {R : Session α → Session α → Prop} (hR : Session.Admits R)
    (x : Point α) (terms : List (FunctionId × α)) (g : Point α) :
    Within R (terms.foldlM (fun (g : Point α) (t, w) =>
      return g.axpy w (← evalOracle x t).1) g : Action α (Point α)) :=
  Within.foldlM hR.toAdmitsUpkeep (fun _ term => (within_evalOracle hR x term.1).bind
    hR.toAdmitsUpkeep fun _ => within_pure hR.toAdmitsUpkeep _) terms g

omit [PartialEquivBEq α] in
theorem leads_foldlM_evalOracle (hs : s.WellFormed) (hx : x.Below s.basis.size)
    (terms : List (FunctionId × α)) (g : Point α) :
    Leads False (terms.foldlM (fun (g : Point α) (t, w) =>
      return g.axpy w (← evalOracle x t).1) g) s fun _ _ => True := by
  refine Leads.foldlM (P := fun _ _ => True) (fun g s' term _ hSteps _ => ?_) trivial
  exact (leads_evalOracle (hSteps.wellFormed hs) (hx.mono hSteps.precedes.size_le) term.1).bind
    fun _ _ _ _ => leads_pure trivial

theorem known_of_foldlM_evalOracle (hx : (x == x) = true) {terms : List (FunctionId × α)}
    {g g' : Point α} (h : (terms.foldlM (fun (g : Point α) (t, w) =>
      return g.axpy w (← evalOracle x t).1) g : Action α (Point α)) s = .ok g' s') :
    ∀ term ∈ terms, ∃ r, s'.known? x term.1 = some r := by
  induction terms generalizing g s with
  | nil => exact fun term hTerm => nomatch hTerm
  | cons head terms ih =>
    rw [List.foldlM_cons] at h
    obtain ⟨_, s₁, hHead, hRest⟩ := bind_eq_ok_iff.mp h
    obtain ⟨r, _, hEval, hPure⟩ := bind_eq_ok_iff.mp hHead
    cases hPure
    obtain ⟨g₂, hKnown, -⟩ := known_of_evalOracle hx hEval
    have hGrow : s₁.Precedes s' :=
      (within_foldlM_evalOracle admits_precedes x terms _).of_eq_ok hRest
    exact List.forall_mem_cons.mpr ⟨⟨_, known?_of_precedes hGrow hx hKnown⟩, ih hRest⟩

open Scalar in
omit [PartialEquivBEq α] in
/-- What a stationary point of a sum has done once it succeeds. -/
theorem exists_of_sumStationaryPoint_eq_ok {f : FunctionId} {terms : List (FunctionId × α)}
    {last : FunctionId × α} (hLast : terms.getLast? = some last)
    (h : sumStationaryPoint f terms s = .ok x s') : ∃ s₁ rest s₂,
      (∀ term ∈ terms, ∃ cls triples, s.functions[term.1.pos]? = some (.leaf cls triples)) ∧
        isZero last.2 = false ∧
        newBasis (.stationaryPoint f) s = .ok x s₁ ∧
        (terms.dropLast.foldlM (fun (g : Point α) (t, w) => return g.axpy w (← evalOracle x t).1)
          0 : Action α (Point α)) s₁ = .ok rest s₂ ∧
        pushTriple last.1 ⟨x, rest.scale (-1 / last.2), .ofValue ⟨s₂.valueCount⟩⟩
          { s₂ with valueCount := s₂.valueCount + 1 } = .ok () s' := by
  rw [sumStationaryPoint] at h
  obtain ⟨_, s₀, hCheck, hChecked⟩ := bind_eq_ok_iff.mp h
  have hLeaves : Leads False (terms.forM _) s _ := leads_forM fun term => leads_checkLeaf f term
  obtain ⟨-, hSame, hLeaf⟩ := hLeaves.of_eq_ok hCheck
  rw [hSame] at hChecked
  simp only [hLast] at hChecked
  split at hChecked
  · cases hChecked
  rename_i hWeight
  obtain ⟨p, s₁, hBasis, hRegistered⟩ := bind_eq_ok_iff.mp hChecked
  obtain ⟨rest, s₂, hFold, hEvaluated⟩ := bind_eq_ok_iff.mp hRegistered
  obtain ⟨e, s₃, hValue, hValued⟩ := bind_eq_ok_iff.mp hEvaluated
  cases hValue
  obtain ⟨⟨⟩, s₄, hPush, hPure⟩ := bind_eq_ok_iff.mp hValued
  cases hPure
  exact ⟨s₁, rest, s₂, hLeaf, Bool.eq_false_iff.mpr hWeight, hBasis, hFold, hPush⟩

/-- The other term evaluates the last function at the new point, and the last term then adds a
second triple there with a value of its own. -/
theorem Session.not_oneValue_of_repeated (hs : s.WellFormed) {f : FunctionId}
    {terms : List (FunctionId × α)} (hSum : s.functions[f.pos]? = some (.sum terms))
    {last : FunctionId × α} (hLast : terms.getLast? = some last)
    (hRepeated : ∃ term ∈ terms.dropLast, term.1 = last.1)
    (h : stationaryPoint f s = .ok x s') (hx : (x == x) = true) : ¬ s'.OneValue := by
  obtain ⟨-, s₃, hCall, rfl⟩ := declaring_eq_ok_iff.mp h
  rw [lookup_bind_of_some hSum] at hCall
  obtain ⟨s₁, rest, s₂, hLeaf, -, hBasis, hFold, hPush⟩ :=
    exists_of_sumStationaryPoint_eq_ok hLast hCall
  have hRegister : Leads False (newBasis (.stationaryPoint f)) s _ := leads_newBasis _
  obtain ⟨hSteps₁, rfl, hSize, -, -⟩ := hRegister.of_eq_ok hBasis
  have hx₁ : (Point.ofBasis ⟨s.basis.size⟩ : Point α).Below s₁.basis.size :=
    Point.below_ofBasis (by simp only [hSize]; omega)
  have hWell₁ : s₁.WellFormed := hSteps₁.wellFormed hs
  have hSteps₂ : Steps False s₁ s₂ :=
    ((leads_foldlM_evalOracle hWell₁ hx₁ terms.dropLast 0).of_eq_ok hFold).1
  obtain ⟨cls, triples, hOld⟩ := hLeaf last (List.mem_of_getLast? hLast)
  obtain ⟨triples₁, hLeaf₁, -⟩ := hSteps₁.precedes.leaf hOld
  obtain ⟨triples₂, hLeaf₂, -⟩ := hSteps₂.precedes.leaf hLeaf₁
  obtain ⟨term, hTerm, hId⟩ := hRepeated
  obtain ⟨r, hKnown⟩ := known_of_foldlM_evalOracle hx hFold term hTerm
  rw [hId, known?_leaf hLeaf₂] at hKnown
  obtain ⟨first, hFirst, -⟩ := Option.map_eq_some_iff.mp hKnown
  have hMem := List.mem_of_find?_eq_some hFirst
  have hEqual : (first.point == .ofBasis ⟨s.basis.size⟩) = true := by
    simpa using List.find?_some hFirst
  rw [pushTriple_eq (s := { s₂ with valueCount := s₂.valueCount + 1 }) hLeaf₂] at hPush
  cases hPush
  intro hOne
  have hPairs := hOne _ cls _ (List.getElem?_set_self (List.getElem?_eq_some_iff.mp hLeaf₂).1)
  obtain ⟨hValue, -⟩ := (List.pairwise_append.mp hPairs).2.2 first hMem _
    (List.mem_singleton_self _) hEqual
  -- the first triple is older than the new value
  have hBelow := ((hSteps₂.wellFormed hWell₁).triples hLeaf₂ first hMem).value
  rw [hValue] at hBelow
  exact lt_irrefl _ (hBelow.values _ (List.mem_singleton_self _))

open Scalar in
omit [PartialEquivBEq α] in
theorem exists_stationaryPoint_of_evalOracle {f : FunctionId} {term last : FunctionId × α}
    (hLive : s.poisoned = false) (hSum : s.functions[f.pos]? = some (.sum [term, last]))
    (hLeaf : ∀ t ∈ [term, last], ∃ cls triples, s.functions[t.1.pos]? = some (.leaf cls triples))
    (hWeight : isZero last.2 = false) {s₁ s₂ : Session α} {r : Point α × Expression α}
    (hBasis : newBasis (.stationaryPoint f) s = .ok x s₁)
    (hEval : evalOracle x term.1 s₁ = .ok r s₂)
    (hLast : ∃ cls triples, s₂.functions[last.1.pos]? = some (.leaf cls triples)) :
    ∃ p s', stationaryPoint f s = .ok p s' := by
  obtain ⟨_, _, hBody⟩ := hLast
  obtain ⟨⟨_, _, hHead⟩, hTail⟩ := List.forall_mem_cons.mp hLeaf
  obtain ⟨_, _, hBody'⟩ := hTail last (List.mem_singleton_self _)
  have hPush := pushTriple_eq (s := { s₂ with valueCount := s₂.valueCount + 1 }) hBody
  obtain ⟨p, s', hFound⟩ : ∃ p s', sumStationaryPoint f [term, last] s = .ok p s' := by
    rw [sumStationaryPoint]
    refine exists_ok_of_bind ⟨⟨⟩, s, ?_, ?_⟩
    · exact bind_eq_ok_iff.mpr ⟨⟨⟩, s, lookup_bind_of_some hHead _,
        bind_eq_ok_iff.mpr ⟨⟨⟩, s, lookup_bind_of_some hBody' _, rfl⟩⟩
    simp only [List.getLast?_cons_cons, List.getLast?_singleton, hWeight]
    rw [if_neg Bool.false_ne_true]
    refine exists_ok_of_bind ⟨x, s₁, hBasis, exists_ok_of_bind ⟨_, s₂, bind_eq_ok_iff.mpr
      ⟨_, s₂, bind_eq_ok_iff.mpr ⟨r, s₂, hEval, rfl⟩, rfl⟩, ?_⟩⟩
    exact exists_ok_of_bind ⟨_, _, rfl, exists_ok_of_bind ⟨⟨⟩, _, hPush _, _, _, rfl⟩⟩
  refine ⟨p, s'.touch, declaring_eq_ok_iff.mpr ⟨hLive, s', ?_, rfl⟩⟩
  rw [lookup_bind_of_some hSum]
  exact hFound

end Repetition

section Example

open PerformanceEstimation.Action

/-- A convex function and a sum which lists it twice. -/
noncomputable def repeatedTerm : Session ℝ where
  parameters := { onePoint with maxBasis := 2 }
  basis := ⟨2, []⟩
  valueCount := 0
  functions := [.leaf .convex [], .sum [(⟨0⟩, 1), (⟨0⟩, 1)]]
  declared := ∅
  metric := none
  status := .unsolved
  failure := none
  poisoned := false

theorem stationaryPoint_repeatedTerm :
    ∃ x s', stationaryPoint ⟨1⟩ repeatedTerm = .ok x s' := by
  have hEval : evalOracle (.ofBasis ⟨0⟩) ⟨0⟩
      { repeatedTerm with basis := ⟨2, [.stationaryPoint ⟨1⟩]⟩ } =
      .ok (.ofBasis ⟨1⟩, .ofValue ⟨0⟩)
        { repeatedTerm with
          basis := ⟨2, [.stationaryPoint ⟨1⟩, .gradient ⟨0⟩]⟩
          valueCount := 1
          functions := [.leaf .convex [⟨.ofBasis ⟨0⟩, .ofBasis ⟨1⟩, .ofValue ⟨0⟩⟩],
            .sum [(⟨0⟩, 1), (⟨0⟩, 1)]] } := by
    rw [evalOracle]
    rfl
  have hLeaf : ∀ t ∈ [((⟨0⟩ : FunctionId), (1 : ℝ)), (⟨0⟩, 1)], ∃ cls triples,
      repeatedTerm.functions[t.1.pos]? = some (.leaf cls triples) := by
    simp [repeatedTerm]
  exact exists_stationaryPoint_of_evalOracle rfl rfl hLeaf (by simp) rfl hEval ⟨_, _, rfl⟩

/-- Without a triple of its own choice and without a proximal step, a run reaches two values of a
function at a point. -/
theorem Session.not_oneValue_run_repeatedTerm :
    ¬ ((new { onePoint with maxBasis := 2 }).run [.declareFunction .convex,
      .declareSum [(⟨0⟩, 1), (⟨0⟩, 1)], .stationaryPoint ⟨1⟩]).OneValue := by
  have hDeclared : (new repeatedTerm.parameters).run [.declareFunction .convex,
      .declareSum [(⟨0⟩, 1), (⟨0⟩, 1)]] = repeatedTerm := rfl
  have hWell : repeatedTerm.WellFormed := hDeclared ▸ (wellFormed_new _).run _
  obtain ⟨x, s', hFound⟩ := stationaryPoint_repeatedTerm
  have hCall : (Call.stationaryPoint ⟨1⟩).perform repeatedTerm = .ok () s' :=
    bind_eq_ok_iff.mpr ⟨x, s', hFound, rfl⟩
  have hRun : (new repeatedTerm.parameters).run [.declareFunction .convex,
      .declareSum [(⟨0⟩, 1), (⟨0⟩, 1)], .stationaryPoint ⟨1⟩] = s' := by
    change Action.after (Call.stationaryPoint ⟨1⟩).perform ((new repeatedTerm.parameters).run
      [.declareFunction .convex, .declareSum [(⟨0⟩, 1), (⟨0⟩, 1)]]) = s'
    rw [hDeclared, after, hCall]
  exact hRun.symm ▸ not_oneValue_of_repeated hWell rfl rfl ⟨_, List.mem_singleton_self _, rfl⟩
    hFound (beq_self_eq_true x.terms)

end Example

end PerformanceEstimation
