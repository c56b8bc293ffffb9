import Mathlib
import PerformanceEstimation.Proofs.Session.Calls

/-!
# The history of a session

A session only grows. What it held before a call, it holds after it in the same place, whether the
call failed or not: `Session.Precedes` is that order, and `precedes_run` says that a run follows it.
-/

set_option autoImplicit false

namespace PerformanceEstimation

variable {α : Type}

/-- A leaf may gain triples at the end of its list, a sum stays as it is. -/
inductive FunctionBody.Precedes : FunctionBody α → FunctionBody α → Prop
  | leaf (cls : FunctionClass α) {triples triples' : List (Triple α)} (h : triples <+: triples') :
    Precedes (.leaf cls triples) (.leaf cls triples')
  | sum (terms : List (FunctionId × α)) : Precedes (.sum terms) (.sum terms)

namespace FunctionBody.Precedes

theorem refl (body : FunctionBody α) : body.Precedes body := by
  cases body with
  | leaf cls triples => exact .leaf cls (List.prefix_refl triples)
  | sum terms => exact .sum terms

theorem trans {a b c : FunctionBody α} (h : a.Precedes b) (h' : b.Precedes c) : a.Precedes c := by
  cases h with
  | leaf cls hPrefix =>
    cases h' with
    | leaf _ hPrefix' => exact .leaf cls (hPrefix.trans hPrefix')
  | sum terms => exact h'

end FunctionBody.Precedes

theorem Basis.eq_of_register? {b basis : Basis} {origin : BasisOrigin} {i : BasisIndex}
    (h : b.register? origin = some (i, basis)) :
    i = ⟨b.size⟩ ∧ b.size < b.capacity ∧ basis = { b with origins := b.origins ++ [origin] } := by
  unfold register? at h
  split at h
  · rename_i hRoom
    cases h
    exact ⟨rfl, hRoom, rfl⟩
  · cases h

theorem Basis.size_of_register? {b basis : Basis} {origin : BasisOrigin} {i : BasisIndex}
    (h : b.register? origin = some (i, basis)) : basis.size = b.size + 1 := by
  obtain ⟨-, -, rfl⟩ := eq_of_register? h
  exact List.length_append

namespace Session

/-- Everything that the first session holds, the second one holds in the same place. -/
structure Precedes (s s' : Session α) : Prop where
  origins : s.basis.origins <+: s'.basis.origins
  valueCount : s.valueCount ≤ s'.valueCount
  functions : ∀ {f : ℕ} {body : FunctionBody α}, s.functions[f]? = some body →
    ∃ body', s'.functions[f]? = some body' ∧ body.Precedes body'
  declared : s.declared.entries <+: s'.declared.entries
  metric : ∀ {e : Expression α}, s.metric = some e → s'.metric = some e

namespace Precedes

theorem refl (s : Session α) : s.Precedes s where
  origins := List.prefix_refl _
  valueCount := le_rfl
  functions {_ body} h := ⟨body, h, .refl body⟩
  declared := List.prefix_refl _
  metric h := h

theorem trans {s t u : Session α} (h : s.Precedes t) (h' : t.Precedes u) : s.Precedes u where
  origins := h.origins.trans h'.origins
  valueCount := h.valueCount.trans h'.valueCount
  functions := by
    intro f body hBody
    obtain ⟨body', hBody', hFirst⟩ := h.functions hBody
    obtain ⟨body'', hBody'', hSecond⟩ := h'.functions hBody'
    exact ⟨body'', hBody'', hFirst.trans hSecond⟩
  declared := h.declared.trans h'.declared
  metric hMetric := h'.metric (h.metric hMetric)

theorem leaf {s s' : Session α} (h : s.Precedes s') {f : ℕ} {cls : FunctionClass α}
    {triples : List (Triple α)} (hLeaf : s.functions[f]? = some (.leaf cls triples)) :
    ∃ triples', s'.functions[f]? = some (.leaf cls triples') ∧ triples <+: triples' := by
  obtain ⟨body', hBody', hPrecedes⟩ := h.functions hLeaf
  cases hPrecedes with
  | leaf _ hPrefix => exact ⟨_, hBody', hPrefix⟩

theorem sum {s s' : Session α} (h : s.Precedes s') {f : ℕ} {terms : List (FunctionId × α)}
    (hSum : s.functions[f]? = some (.sum terms)) : s'.functions[f]? = some (.sum terms) := by
  obtain ⟨body', hBody', hPrecedes⟩ := h.functions hSum
  cases hPrecedes with
  | sum _ => exact hBody'

theorem size_le {s s' : Session α} (h : s.Precedes s') : s.basis.size ≤ s'.basis.size :=
  h.origins.length_le

theorem of_functions {s s' : Session α} (hOrigins : s.basis.origins <+: s'.basis.origins)
    (hCount : s.valueCount ≤ s'.valueCount) (hFunctions : s'.functions = s.functions)
    (hDeclared : s'.declared = s.declared) (hMetric : s'.metric = s.metric) : s.Precedes s' where
  origins := hOrigins
  valueCount := hCount
  functions {_ body} h := ⟨body, hFunctions ▸ h, .refl body⟩
  declared := hDeclared ▸ List.prefix_refl _
  metric h := hMetric ▸ h

end Precedes

theorem origins_configure (s : Session α) (change : Parameters α → Parameters α) :
    (s.configure change).basis.origins = s.basis.origins := by
  unfold configure
  dsimp only
  split
  · rename_i hEmpty
    exact (List.eq_nil_of_length_eq_zero hEmpty).symm
  · rfl

theorem admits_precedes : Admits (Precedes (α := α)) where
  refl := Precedes.refl
  trans := Precedes.trans
  poison s := .of_functions (List.prefix_refl _) le_rfl rfl rfl rfl
  touch s := .of_functions (List.prefix_refl _) le_rfl rfl rfl rfl
  basis := by
    intro s origin i basis h
    obtain ⟨-, -, rfl⟩ := Basis.eq_of_register? h
    exact .of_functions (List.prefix_append _ _) le_rfl rfl rfl rfl
  value s := .of_functions (List.prefix_refl _) (Nat.le_succ _) rfl rfl rfl
  outcome s status failure := .of_functions (List.prefix_refl _) le_rfl rfl rfl rfl
  configure s change :=
    .of_functions (s.origins_configure change ▸ List.prefix_refl _) le_rfl rfl rfl rfl
  function s body :=
    { Precedes.refl s with
      functions := by
        intro f old hOld
        have hBound := (List.getElem?_eq_some_iff.mp hOld).1
        exact ⟨old, (List.getElem?_append_left hBound).trans hOld, .refl old⟩ }
  triple := by
    intro s f cls triples t hLeaf
    refine { Precedes.refl s with functions := ?_ }
    intro g old hOld
    by_cases hSame : f.pos = g
    · subst hSame
      cases hLeaf.symm.trans hOld
      refine ⟨_, ?_, .leaf cls (List.prefix_append triples [t])⟩
      exact List.getElem?_set_self (List.getElem?_eq_some_iff.mp hLeaf).1
    · exact ⟨old, (List.getElem?_set_ne hSame).trans hOld, .refl old⟩
  metric := by
    intro s e hNone
    refine { Precedes.refl s with metric := ?_ }
    intro old hOld
    rw [hNone] at hOld
    cases hOld

end Session

section Runs

variable {R : Session α → Session α → Prop}

def Session.AdmitsConstraint [Scalar α] (R : Session α → Session α → Prop) : Prop :=
  ∀ {s : Session α} {c origin id declared}, s.declared.push c origin = .ok (id, declared) →
    R s { s with declared }

variable [Scalar α]

theorem Action.within_pushConstraint (hR : Session.AdmitsUpkeep R)
    (hConstraint : Session.AdmitsConstraint R) (c : Constraint α) (origin : ConstraintOrigin) :
    Within R (pushConstraint c origin) := by
  refine ((reads_checkExpression c.lhs).within hR).bind hR fun _ => within_get_bind fun s => ?_
  split
  · rename_i hPush
    exact hConstraint hPush
  · exact within_throw hR _ s

theorem Call.within_perform_of_constraint (hR : Session.Admits R)
    (hConstraint : Session.AdmitsConstraint R) (call : Call α) : Action.Within R call.perform := by
  cases hStated : call.stated? with
  | none => exact call.within_perform hR hStated
  | some c =>
    cases call with
    | initialCondition c' =>
      exact (Action.within_pushConstraint hR hConstraint c' _).declaring hR
    | functionConstraint f c' =>
      exact (((Action.reads_lookup f).within hR).bind hR fun _ =>
        Action.within_pushConstraint hR hConstraint c' _).declaring hR
    | _ => cases hStated

theorem Session.admitsConstraint_precedes :
    Session.AdmitsConstraint (Session.Precedes (α := α)) := by
  intro s c origin id declared hPush
  refine { Session.Precedes.refl s with declared := ?_ }
  rw [Store.entries_push hPush]
  exact List.prefix_append _ _

theorem Call.precedes_after (call : Call α) (s : Session α) :
    s.Precedes (call.perform.after s) :=
  call.within_perform_of_constraint Session.admits_precedes Session.admitsConstraint_precedes s

theorem Session.precedes_run (s : Session α) (calls : List (Call α)) :
    s.Precedes (s.run calls) := by
  induction calls generalizing s with
  | nil => exact .refl s
  | cons call calls ih => exact (call.precedes_after s).trans (ih _)

end Runs

end PerformanceEstimation
