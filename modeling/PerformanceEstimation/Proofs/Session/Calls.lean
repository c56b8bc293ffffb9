import Mathlib
import PerformanceEstimation.Proofs.Session.Effects

/-!
# Runs of calls

A session is reached from a new one by calls of its interface, each of which may fail. Only the two
calls that state a constraint add to the declared ones, and only if they succeed: after a run the
declared constraints are the accepted ones, in the order of the calls (`declared_run`).
-/

set_option autoImplicit false

namespace PerformanceEstimation

inductive Call (α : Type) where
  | configure (change : Parameters α → Parameters α)
  | declareFunction (cls : FunctionClass α)
  | declareSum (terms : List (FunctionId × α))
  | initialPoint
  | newValue
  | newGradient (f : FunctionId)
  | stationaryPoint (f : FunctionId)
  | oracle (f : FunctionId) (x : Point α)
  | gradient (f : FunctionId) (x : Point α)
  | value (f : FunctionId) (x : Point α)
  | addPoint (f : FunctionId) (x g : Point α) (v : Expression α)
  | initialCondition (c : Constraint α)
  | functionConstraint (f : FunctionId) (c : Constraint α)
  | setMetric (e : Expression α)
  | gradientStep (f : FunctionId) (x : Point α) (step : α)
  | proximalStep (f : FunctionId) (x : Point α) (step : α)
  | compile
  | solve (b : Backend α)

namespace Call

variable {α : Type} [Scalar α]

def perform : Call α → Action α Unit
  | configure change => modify (·.configure change)
  | declareFunction cls => discard (Action.declareFunction cls)
  | declareSum terms => discard (Action.declareSum terms)
  | initialPoint => discard Action.initialPoint
  | newValue => discard Action.newValue
  | newGradient f => discard (Action.newGradient f)
  | stationaryPoint f => discard (Action.stationaryPoint f)
  | oracle f x => discard (Action.oracle f x)
  | gradient f x => discard (Action.gradient f x)
  | value f x => discard (Action.value f x)
  | addPoint f x g v => Action.addPoint f x g v
  | initialCondition c => Action.initialCondition c
  | functionConstraint f c => Action.functionConstraint f c
  | setMetric e => Action.setMetric e
  | gradientStep f x step => discard (Action.gradientStep f x step)
  | proximalStep f x step => discard (Action.proximalStep f x step)
  | compile => discard Action.compile
  | solve b => discard (Action.solve b)

def stated? : Call α → Option (Constraint α)
  | initialCondition c | functionConstraint _ c => some c
  | _ => none

/-- The constraint that the call adds to those of a session. -/
def accepted (call : Call α) (s : Session α) : List (Constraint α) :=
  match call.perform s with
  | .ok .. => call.stated?.toList
  | .error .. => []

end Call

namespace Session

variable {α : Type} [Scalar α]

def run (s : Session α) (calls : List (Call α)) : Session α :=
  calls.foldl (fun s call => call.perform.after s) s

theorem run_append (s : Session α) (calls more : List (Call α)) :
    s.run (calls ++ more) = (s.run calls).run more :=
  List.foldl_append

/-- The constraints accepted during a run of calls, in order. -/
def accepted (s : Session α) : List (Call α) → List (Constraint α)
  | [] => []
  | call :: calls => call.accepted s ++ (call.perform.after s).accepted calls

end Session

namespace Call

variable {α : Type} [Scalar α] {R : Session α → Session α → Prop}

theorem within_perform (hR : Session.Admits R) {call : Call α} (h : call.stated? = none) :
    Action.Within R call.perform := by
  cases call with
  | configure change => exact fun s => hR.configure s change
  | declareFunction cls => exact (Action.within_declareFunction hR cls).discard hR
  | declareSum terms => exact (Action.within_declareSum hR terms).discard hR
  | initialPoint => exact ((Action.within_newBasis hR _).declaring hR).discard hR
  | newValue => exact (Action.within_newValue hR).discard hR
  | newGradient f => exact (Action.within_newGradient hR f).discard hR
  | stationaryPoint f => exact (Action.within_stationaryPoint hR f).discard hR
  | oracle f x => exact (Action.within_oracle hR f x).discard hR
  | gradient f x => exact (Action.within_gradient hR f x).discard hR
  | value f x => exact (Action.within_value hR f x).discard hR
  | addPoint f x g v => exact Action.within_addPoint hR f x g v
  | initialCondition c => cases h
  | functionConstraint f c => cases h
  | setMetric e => exact Action.within_setMetric hR e
  | gradientStep f x step => exact (Action.within_gradientStep hR f x step).discard hR
  | proximalStep f x step => exact (Action.within_proximalStep hR f x step).discard hR
  | compile => exact (Action.within_compile hR).discard hR
  | solve b => exact (Action.within_solve hR b).discard hR

end Call

section Declared

variable {α β γ : Type}

/-- The action adds a constraint to the declared ones if it succeeds, and none if it fails. -/
def Action.Adds (c : Constraint α) (act : Action α β) : Prop :=
  ∀ s, match act s with
    | .ok _ s' => s'.declared.entries.map (·.constraint) =
        s.declared.entries.map (·.constraint) ++ [c]
    | .error _ s' => s'.declared = s.declared

theorem Action.Adds.declaring {c : Constraint α} {act : Action α β} (h : Action.Adds c act) :
    Action.Adds c (Action.declaring act) := by
  intro s
  have hAct := h s
  rw [Action.declaring_eq]
  by_cases hPoisoned : s.poisoned = true
  · rw [if_pos hPoisoned]
  · rw [if_neg hPoisoned]
    cases hResult : act s with
    | ok b s' =>
      simp only [hResult] at hAct
      exact hAct
    | error e s' =>
      simp only [hResult] at hAct
      exact hAct

theorem Action.Reads.bind_adds {c : Constraint α} {act : Action α β} {next : β → Action α γ}
    (hAct : Action.Reads act) (hNext : ∀ b, Action.Adds c (next b)) :
    Action.Adds c (act >>= next) := by
  intro s
  have hSame := hAct s
  cases hResult : act s with
  | ok b s' =>
    simp only [Action.after, hResult] at hSame
    have hBind : (act >>= next) s = next b s := by
      simp only [Bind.bind, EStateM.bind, hResult, hSame]
    rw [hBind]
    exact hNext b s
  | error e s' =>
    simp only [Action.after, hResult] at hSame
    have hBind : (act >>= next) s = .error e s := by
      simp only [Bind.bind, EStateM.bind, hResult, hSame]
    rw [hBind]

theorem Session.admits_declared :
    Session.Admits fun s s' : Session α => s'.declared = s.declared where
  refl _ := rfl
  trans h h' := h'.trans h
  poison _ := rfl
  touch _ := rfl
  basis _ := rfl
  value _ := rfl
  function _ _ := rfl
  triple _ _ := rfl
  metric _ _ := rfl
  outcome _ _ _ := rfl
  configure _ _ := rfl

variable [Scalar α]

theorem Store.entries_push {s store : Store α} {c : Constraint α} {origin : ConstraintOrigin}
    {id : ConstraintId} (h : s.push c origin = .ok (id, store)) :
    store.entries = s.entries ++ [⟨c, origin⟩] := by
  unfold Store.push at h
  split at h
  · cases h
  · cases h
    rfl

theorem Action.adds_pushConstraint (c : Constraint α) (origin : ConstraintOrigin) :
    Action.Adds c (Action.pushConstraint c origin) := by
  refine (Action.reads_checkExpression c.lhs).bind_adds fun _ s => ?_
  cases hPush : s.declared.push c origin with
  | ok result =>
    simp only [Bind.bind, EStateM.bind, get, getThe, MonadStateOf.get, EStateM.get, hPush]
    change result.2.entries.map (·.constraint) = _
    rw [Store.entries_push hPush, List.map_append, List.map_singleton]
  | error conflict =>
    simp only [Bind.bind, EStateM.bind, get, getThe, MonadStateOf.get, EStateM.get, hPush]
    rfl

theorem Call.declared_after (call : Call α) (s : Session α) :
    (call.perform.after s).declared.entries.map (·.constraint) =
      s.declared.entries.map (·.constraint) ++ call.accepted s := by
  cases hStated : call.stated? with
  | none =>
    have hNone : call.accepted s = [] := by
      unfold Call.accepted
      split
      · rw [hStated]
        rfl
      · rfl
    rw [Call.within_perform Session.admits_declared hStated s, hNone, List.append_nil]
  | some c =>
    have hAdds : Action.Adds c call.perform := by
      cases call with
      | initialCondition c' =>
        cases hStated
        exact (Action.adds_pushConstraint c _).declaring
      | functionConstraint f c' =>
        cases hStated
        exact ((Action.reads_lookup f).bind_adds fun _ => Action.adds_pushConstraint c _).declaring
      | _ => cases hStated
    have hCall := hAdds s
    unfold Call.accepted Action.after
    cases hResult : call.perform s with
    | ok b s' =>
      simp only [hResult] at hCall
      simp only [hCall, hStated, Option.toList_some]
    | error e s' =>
      simp only [hResult] at hCall
      simp only [hCall, List.append_nil]

theorem Session.declared_run (calls : List (Call α)) (s : Session α) :
    (s.run calls).declared.entries.map (·.constraint) =
      s.declared.entries.map (·.constraint) ++ s.accepted calls := by
  induction calls generalizing s with
  | nil => exact (List.append_nil _).symm
  | cons call calls ih =>
    rw [Session.run, List.foldl_cons, ← Session.run, ih, Call.declared_after, Session.accepted,
      List.append_assoc]

end Declared

end PerformanceEstimation
