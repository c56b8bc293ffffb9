import Mathlib
import PerformanceEstimation.Proofs.Algebra.Supports
import PerformanceEstimation.Proofs.Session.History

/-!
# Steps of a session

`Session.Step` lists the single updates of a session, each with what is checked before it is made.
A well-formed session stays so (`Step.wellFormed`): its triples, constraints and metric name
registered unknowns only, and the terms of a sum come before the sum.

An action is followed from one session by `Action.Leads`: the steps that it takes, whether it fails
or not, and what holds of its result if it succeeds.
-/

set_option autoImplicit false

namespace PerformanceEstimation

variable {α β γ : Type} [Scalar α]

/-- How a triple follows those of a leaf that is evaluated: it is the first one at its point, or the
class has several gradients there and the value is that of the first one. -/
def FunctionClass.Fits (cls : FunctionClass α) (triples : List (Triple α)) (t : Triple α) : Prop :=
  ∀ first, triples.find? (·.point == t.point) = some first →
    cls.singleValued = false ∧ t.value = first.value

namespace Session

/-- One update of a session. Where `strict` holds, a triple has to fit those before it. -/
inductive Step (strict : Prop) : Session α → Session α → Prop
  | poison (s : Session α) : Step strict s { s with poisoned := true }
  | touch (s : Session α) : Step strict s s.touch
  | outcome (s : Session α) (status : Status) (failure : Option (SolveError α)) :
    Step strict s { s with status, failure }
  | configure (s : Session α) (change : Parameters α → Parameters α) :
    Step strict s (s.configure change)
  | basis {s : Session α} {origin : BasisOrigin} {i : BasisIndex} {basis : Basis}
    (hRoom : s.basis.register? origin = some (i, basis)) : Step strict s { s with basis }
  | value (s : Session α) : Step strict s { s with valueCount := s.valueCount + 1 }
  | leaf (s : Session α) {cls : FunctionClass α} (hValid : cls.validate = .ok ()) :
    Step strict s { s with functions := s.functions ++ [.leaf cls []] }
  | sum {s : Session α} {terms : List (FunctionId × α)} (hNonempty : terms ≠ [])
    (hTerms : ∀ term ∈ terms,
      term.1.pos < s.functions.length ∧ Scalar.isFinite term.2 = true) :
    Step strict s { s with functions := s.functions ++ [.sum terms] }
  | triple {s : Session α} {f : FunctionId} {cls : FunctionClass α} {triples : List (Triple α)}
    {t : Triple α} (hLeaf : s.functions[f.pos]? = some (.leaf cls triples))
    (hBelow : t.Below s.basis.size s.valueCount) (hFits : strict → cls.Fits triples t) :
    Step strict s { s with functions := s.functions.set f.pos (.leaf cls (triples ++ [t])) }
  | constraint {s : Session α} {c : Constraint α} {origin : ConstraintOrigin} {id : ConstraintId}
    {declared : Store α} (hBelow : c.lhs.Below s.basis.size s.valueCount)
    (hPush : s.declared.push c origin = .ok (id, declared)) : Step strict s { s with declared }
  | metric {s : Session α} {e : Expression α} (hNone : s.metric = none)
    (hBelow : e.Below s.basis.size s.valueCount) : Step strict s { s with metric := some e }

abbrev Steps (strict : Prop) : Session α → Session α → Prop :=
  Relation.ReflTransGen (Step strict)

variable {strict : Prop} {s s' : Session α}

theorem Step.precedes (h : Step strict s s') : s.Precedes s' := by
  cases h with
  | poison => exact admits_precedes.poison s
  | touch => exact admits_precedes.touch s
  | outcome status failure => exact admits_precedes.outcome s status failure
  | configure change => exact admits_precedes.configure s change
  | basis hRoom => exact admits_precedes.basis hRoom
  | value => exact admits_precedes.value s
  | leaf hValid => exact admits_precedes.function s _
  | sum hNonempty hTerms => exact admits_precedes.function s _
  | triple hLeaf hBelow hFits => exact admits_precedes.triple _ hLeaf
  | constraint hBelow hPush => exact admitsConstraint_precedes hPush
  | metric hNone hBelow => exact admits_precedes.metric _ hNone

theorem Steps.precedes (h : Steps strict s s') : s.Precedes s' := by
  induction h with
  | refl => exact .refl s
  | tail _ hStep ih => exact ih.trans hStep.precedes

theorem admitsUpkeep_steps : AdmitsUpkeep (Steps (α := α) strict) where
  refl _ := .refl
  trans := .trans
  poison s := .single (.poison s)
  touch s := .single (.touch s)
  basis h := .single (.basis h)
  value s := .single (.value s)
  outcome s status failure := .single (.outcome s status failure)
  configure s change := .single (.configure s change)

/-- The record refers only to what is registered, and its sums only to functions before them. -/
structure WellFormed (s : Session α) : Prop where
  size_le_capacity : s.basis.size ≤ s.basis.capacity
  triples : ∀ {f : ℕ} {cls : FunctionClass α} {triples : List (Triple α)},
    s.functions[f]? = some (.leaf cls triples) →
    ∀ t ∈ triples, t.Below s.basis.size s.valueCount
  sums : ∀ {f : ℕ} {terms : List (FunctionId × α)}, s.functions[f]? = some (.sum terms) →
    terms ≠ [] ∧ ∀ term ∈ terms, term.1.pos < f ∧ Scalar.isFinite term.2 = true
  declared : ∀ entry ∈ s.declared.entries,
    entry.constraint.lhs.Below s.basis.size s.valueCount
  metric : ∀ {e : Expression α}, s.metric = some e → e.Below s.basis.size s.valueCount

theorem wellFormed_new (par : Parameters α) : (new par).WellFormed where
  size_le_capacity := Nat.zero_le _
  triples := by
    intro f cls triples h
    cases h
  sums := by
    intro f terms h
    cases h
  declared entry h := by cases h
  metric := by
    intro e h
    cases h

theorem WellFormed.enlarge (hs : s.WellFormed) (hCapacity : s'.basis.size ≤ s'.basis.capacity)
    (hSize : s.basis.size ≤ s'.basis.size) (hCount : s.valueCount ≤ s'.valueCount)
    (hFunctions : s'.functions = s.functions) (hDeclared : s'.declared = s.declared)
    (hMetric : s'.metric = s.metric) : s'.WellFormed where
  size_le_capacity := hCapacity
  triples h t ht := (hs.triples (hFunctions ▸ h) t ht).mono hSize hCount
  sums h := hs.sums (hFunctions ▸ h)
  declared entry h := (hs.declared entry (hDeclared ▸ h)).mono hSize hCount
  metric h := (hs.metric (hMetric ▸ h)).mono hSize hCount

omit [Scalar α] in
theorem eq_or_getElem?_of_append {body last : FunctionBody α} {functions : List (FunctionBody α)}
    {f : ℕ} (h : (functions ++ [last])[f]? = some body) :
    functions[f]? = some body ∨ f = functions.length ∧ body = last := by
  rw [List.getElem?_append] at h
  split at h
  · exact .inl h
  · rename_i hBound
    obtain ⟨hZero, hLast⟩ := List.getElem?_eq_some_iff.mp h
    rw [List.length_singleton] at hZero
    exact .inr ⟨by omega, by simpa using hLast.symm⟩

omit [Scalar α] in
theorem eq_or_getElem?_of_set {body new : FunctionBody α} {functions : List (FunctionBody α)}
    {f g : ℕ} (h : (functions.set g new)[f]? = some body) :
    functions[f]? = some body ∨ f = g ∧ body = new := by
  rw [List.getElem?_set] at h
  split at h
  · rename_i hSame
    split at h
    · cases h
      exact .inr ⟨hSame.symm, rfl⟩
    · cases h
  · exact .inl h

theorem Step.wellFormed (h : Step strict s s') (hs : s.WellFormed) : s'.WellFormed := by
  cases h with
  | poison => exact hs.enlarge hs.size_le_capacity le_rfl le_rfl rfl rfl rfl
  | touch => exact hs.enlarge hs.size_le_capacity le_rfl le_rfl rfl rfl rfl
  | outcome status failure => exact hs.enlarge hs.size_le_capacity le_rfl le_rfl rfl rfl rfl
  | configure change =>
    refine hs.enlarge ?_ (admits_precedes.configure s change).size_le le_rfl rfl rfl rfl
    unfold Session.configure
    dsimp only
    split
    · exact Nat.zero_le _
    · exact hs.size_le_capacity
  | basis hRoom =>
    have hSize := Basis.size_of_register? hRoom
    obtain ⟨-, hLess, rfl⟩ := Basis.eq_of_register? hRoom
    exact hs.enlarge (hSize.trans_le hLess) (by simp only [hSize]; omega) le_rfl rfl rfl rfl
  | value => exact hs.enlarge hs.size_le_capacity le_rfl (Nat.le_succ _) rfl rfl rfl
  | leaf hValid =>
    refine { hs with triples := ?_, sums := ?_ }
    · intro f cls' triples hLeaf t ht
      rcases eq_or_getElem?_of_append hLeaf with hOld | ⟨-, hNew⟩
      · exact hs.triples hOld t ht
      · cases hNew
        cases ht
    · intro f terms hSum
      rcases eq_or_getElem?_of_append hSum with hOld | ⟨-, hNew⟩
      · exact hs.sums hOld
      · cases hNew
  | sum hNonempty hTerms =>
    refine { hs with triples := ?_, sums := ?_ }
    · intro f cls triples hLeaf t ht
      rcases eq_or_getElem?_of_append hLeaf with hOld | ⟨-, hNew⟩
      · exact hs.triples hOld t ht
      · cases hNew
    · intro f terms' hSum
      rcases eq_or_getElem?_of_append hSum with hOld | ⟨rfl, hNew⟩
      · exact hs.sums hOld
      · cases hNew
        exact ⟨hNonempty, hTerms⟩
  | triple hLeaf hBelow hFits =>
    refine { hs with triples := ?_, sums := ?_ }
    · intro f cls' triples' hLeaf' t' ht'
      rcases eq_or_getElem?_of_set hLeaf' with hOld | ⟨-, hNew⟩
      · exact hs.triples hOld t' ht'
      · cases hNew
        -- the triples of the leaf are those before and the one that was checked
        rcases List.mem_append.mp ht' with hOld | hLast
        · exact hs.triples hLeaf t' hOld
        · rw [List.mem_singleton.mp hLast]
          exact hBelow
    · intro f terms hSum
      rcases eq_or_getElem?_of_set hSum with hOld | ⟨-, hNew⟩
      · exact hs.sums hOld
      · cases hNew
  | constraint hBelow hPush =>
    refine { hs with declared := ?_ }
    intro entry hEntry
    rw [Store.entries_push hPush] at hEntry
    rcases List.mem_append.mp hEntry with hOld | hLast
    · exact hs.declared entry hOld
    · rw [List.mem_singleton.mp hLast]
      exact hBelow
  | metric hNone hBelow =>
    refine { hs with metric := ?_ }
    intro e h
    cases h
    exact hBelow

theorem Steps.wellFormed (h : Steps strict s s') (hs : s.WellFormed) : s'.WellFormed := by
  induction h with
  | refl => exact hs
  | tail _ hStep ih => exact hStep.wellFormed ih

end Session

namespace Action

open Session

variable {strict : Prop}

/-- From the session the action takes steps, and its result is as stated if it succeeds. -/
def Leads (strict : Prop) (act : Action α β) (s : Session α) (Q : β → Session α → Prop) : Prop :=
  match act s with
  | .ok b s' => Steps strict s s' ∧ Q b s'
  | .error _ s' => Steps strict s s'

section Rules

variable {act : Action α β} {s t : Session α} {Q : β → Session α → Prop}

theorem Leads.steps (h : Leads strict act s Q) : Steps strict s (act.after s) := by
  unfold Leads at h
  unfold after
  cases hResult : act s with
  | ok b s' =>
    rw [hResult] at h
    exact h.1
  | error e s' =>
    rw [hResult] at h
    exact h

theorem Leads.of_eq_ok (h : Leads strict act s Q) {b : β} {s' : Session α}
    (hResult : act s = .ok b s') : Steps strict s s' ∧ Q b s' := by
  unfold Leads at h
  rwa [hResult] at h

theorem Leads.mono {R : β → Session α → Prop} (h : Leads strict act s Q)
    (hPost : ∀ b s', Steps strict s s' → Q b s' → R b s') : Leads strict act s R := by
  unfold Leads at h ⊢
  cases hResult : act s with
  | ok b s' =>
    rw [hResult] at h
    exact ⟨h.1, hPost b s' h.1 h.2⟩
  | error e s' =>
    rw [hResult] at h
    exact h

theorem leads_pure {b : β} (h : Q b s) : Leads strict (pure b) s Q :=
  ⟨.refl, h⟩

theorem leads_throw (e : SessionError α) : Leads strict (throw e) s Q :=
  .refl

theorem leads_fail (e : ConstructionError) : Leads strict (fail e) s Q :=
  .refl

theorem Leads.bind {next : β → Action α γ} {R : γ → Session α → Prop} (h : Leads strict act s Q)
    (hNext : ∀ b s', Steps strict s s' → Q b s' → Leads strict (next b) s' R) :
    Leads strict (act >>= next) s R := by
  unfold Leads at h ⊢
  simp only [Bind.bind, EStateM.bind]
  cases hResult : act s with
  | ok b s' =>
    rw [hResult] at h
    have hRest := hNext b s' h.1 h.2
    unfold Leads at hRest
    dsimp only
    cases hSecond : next b s' with
    | ok c s'' =>
      rw [hSecond] at hRest
      exact ⟨h.1.trans hRest.1, hRest.2⟩
    | error e s'' =>
      rw [hSecond] at hRest
      exact h.1.trans hRest
  | error e s' =>
    rw [hResult] at h
    exact h

theorem Reads.bind_leads {next : β → Action α γ} {R : γ → Session α → Prop} (hReads : Reads act)
    (hNext : ∀ b, act s = .ok b s → Leads strict (next b) s R) :
    Leads strict (act >>= next) s R := by
  have hSame := hReads s
  unfold after at hSame
  refine Leads.bind (Q := fun b s' => s' = s ∧ act s = .ok b s) ?_ ?_
  · unfold Leads
    cases hResult : act s with
    | ok b s' =>
      rw [hResult] at hSame
      cases hSame
      exact ⟨.refl, rfl, rfl⟩
    | error e s' =>
      rw [hResult] at hSame
      cases hSame
      exact .refl
  · rintro b _ - ⟨rfl, hResult⟩
    exact hNext b hResult

theorem Leads.foldlM {act : γ → β → Action α γ} {P : γ → Session α → Prop} {bs : List β}
    (hStep : ∀ c s', ∀ b ∈ bs, Steps strict s s' → P c s' → Leads strict (act c b) s' P) {c : γ}
    (h : P c s) : Leads strict (bs.foldlM act c) s P := by
  induction bs generalizing c s with
  | nil => exact leads_pure h
  | cons b bs ih =>
    rw [List.foldlM_cons]
    refine (hStep c s b List.mem_cons_self .refl h).bind fun c' s' hFirst h' => ih ?_ h'
    intro c'' s'' b' hb' hRest
    exact hStep c'' s'' b' (List.mem_cons_of_mem _ hb') (hFirst.trans hRest)

theorem Leads.declaring (h : Leads strict act s fun b s' => Q b s'.touch) :
    Leads strict (declaring act) s Q := by
  unfold Leads at h ⊢
  rw [declaring_eq]
  by_cases hPoisoned : s.poisoned = true
  · rw [if_pos hPoisoned]
  · rw [if_neg hPoisoned]
    cases hResult : act s with
    | ok b s' =>
      rw [hResult] at h
      exact ⟨h.1.tail (.touch s'), h.2⟩
    | error e s' =>
      rw [hResult] at h
      exact h.tail (.poison s')

theorem Leads.steps_discard (h : Leads strict act s Q) :
    Steps strict s ((discard act).after s) :=
  (h.bind (R := fun _ _ => True) fun _ _ _ _ => leads_pure trivial).steps

end Rules

end Action

end PerformanceEstimation
