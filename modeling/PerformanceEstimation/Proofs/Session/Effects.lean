import Mathlib
import PerformanceEstimation.Session.Solve
import PerformanceEstimation.Session.Step

/-!
# Effects of actions

Whatever an action does to a session, it does by a few updates. A relation between sessions that
all of them respect (`Session.Admits`) holds between the sessions before and after every action that
adds no constraint, whether it fails or not (`Action.Within`).
-/

set_option autoImplicit false

namespace PerformanceEstimation

/-- A reflexive and transitive relation that the updates respect which nothing has to check: those of
the status and the parameters, and new names of vectors and values. -/
structure Session.AdmitsUpkeep {α : Type} (R : Session α → Session α → Prop) : Prop where
  refl : ∀ s, R s s
  trans : ∀ {s t u}, R s t → R t u → R s u
  poison : ∀ s, R s { s with poisoned := true }
  touch : ∀ s, R s s.touch
  basis : ∀ {s origin i basis}, s.basis.register? origin = some (i, basis) → R s { s with basis }
  value : ∀ s, R s { s with valueCount := s.valueCount + 1 }
  outcome : ∀ s status failure, R s { s with status, failure }
  configure : ∀ s change, R s (s.configure change)

/-- A relation that every update respects, other than a new constraint. -/
structure Session.Admits {α : Type} (R : Session α → Session α → Prop) : Prop
    extends Session.AdmitsUpkeep R where
  function : ∀ s body, R s { s with functions := s.functions ++ [body] }
  triple : ∀ {s} {f : FunctionId} {cls triples} t,
    s.functions[f.pos]? = some (.leaf cls triples) →
    R s { s with functions := s.functions.set f.pos (.leaf cls (triples ++ [t])) }
  metric : ∀ {s} e, s.metric = none → R s { s with metric := some e }

instance {α : Type} {R : Session α → Session α → Prop} :
    Coe (Session.Admits R) (Session.AdmitsUpkeep R) :=
  ⟨fun hR => hR.toAdmitsUpkeep⟩

namespace Action

variable {α β γ : Type}

def after (act : Action α β) (s : Session α) : Session α :=
  match act s with
  | .ok _ s' => s'
  | .error _ s' => s'

/-- The relation holds between the sessions before and after the action. -/
def Within (R : Session α → Session α → Prop) (act : Action α β) : Prop :=
  ∀ s, R s (act.after s)

variable {R : Session α → Session α → Prop}

theorem Within.of_eq_ok {act : Action α β} (h : Within R act) {b : β} {s s' : Session α}
    (hResult : act s = .ok b s') : R s s' := by
  have hAfter := h s
  rwa [after, hResult] at hAfter

section Structure

theorem within_pure (hR : Session.AdmitsUpkeep R) (b : β) : Within R (pure b) :=
  fun s => hR.refl s

theorem within_throw (hR : Session.AdmitsUpkeep R) (e : SessionError α) :
    Within R (throw e : Action α β) :=
  fun s => hR.refl s

theorem within_fail (hR : Session.AdmitsUpkeep R) (e : ConstructionError) :
    Within R (fail e : Action α β) :=
  within_throw hR _

theorem within_fail_bind (hR : Session.AdmitsUpkeep R) (e : ConstructionError) (next : γ → Action α β) :
    Within R (fail e >>= next) :=
  fun s => hR.refl s

theorem after_bind (act : Action α β) (next : β → Action α γ) (s : Session α) :
    after (act >>= next) s = match act s with
      | .ok b s' => (next b).after s'
      | .error _ s' => s' := by
  simp only [after, Bind.bind, EStateM.bind]
  cases act s <;> rfl

theorem Within.bind (hR : Session.AdmitsUpkeep R) {act : Action α β} {next : β → Action α γ}
    (hAct : Within R act) (hNext : ∀ b, Within R (next b)) : Within R (act >>= next) := by
  intro s
  have hFirst := hAct s
  rw [after_bind]
  cases hResult : act s with
  | ok b s' =>
    simp only [after, hResult] at hFirst
    exact hR.trans hFirst (hNext b s')
  | error e s' => simpa only [after, hResult] using hFirst

theorem within_get_bind {next : Session α → Action α β}
    (h : ∀ s, R s (after (next s) s)) : Within R (get >>= next) :=
  h

theorem within_modify {f : Session α → Session α} (h : ∀ s, R s (f s)) :
    Within R (modify f : Action α Unit) :=
  h

theorem Within.discard (hR : Session.AdmitsUpkeep R) {act : Action α β} (h : Within R act) :
    Within R (discard act) :=
  h.bind hR fun _ => within_pure hR _

theorem Within.forM (hR : Session.AdmitsUpkeep R) {act : β → Action α PUnit} (h : ∀ b, Within R (act b))
    (bs : List β) : Within R (bs.forM act) := by
  induction bs with
  | nil => exact within_pure hR _
  | cons b bs ih => exact (h b).bind hR fun _ => ih

theorem Within.foldlM (hR : Session.AdmitsUpkeep R) {act : γ → β → Action α γ}
    (h : ∀ c b, Within R (act c b)) (bs : List β) (c : γ) : Within R (bs.foldlM act c) := by
  induction bs generalizing c with
  | nil => exact within_pure hR _
  | cons b bs ih => exact (h c b).bind hR ih

theorem Within.poisoning (hR : Session.AdmitsUpkeep R) {act : Action α β} (h : Within R act) :
    Within R (poisoning act) := by
  intro s
  have hAct := h s
  rw [after] at hAct
  rw [after, Action.poisoning]
  cases hResult : act s with
  | ok b s' => simpa only [hResult] using hAct
  | error e s' =>
    rw [hResult] at hAct
    exact hR.trans hAct (hR.poison s')

end Structure

section Reading

def Reads (act : Action α β) : Prop :=
  ∀ s, act.after s = s

theorem Reads.within (hR : Session.AdmitsUpkeep R) {act : Action α β} (h : Reads act) : Within R act :=
  fun s => (h s).symm ▸ hR.refl s

theorem Reads.bind_within (hR : Session.AdmitsUpkeep R) {act : Action α β} {next : β → Action α γ}
    {s : Session α} (hAct : Reads act) (hNext : ∀ b, R s (after (next b) s)) :
    R s (after (act >>= next) s) := by
  have hSame := hAct s
  rw [after_bind]
  cases hResult : act s with
  | ok b s' =>
    simp only [after, hResult] at hSame
    exact hSame ▸ hNext b
  | error e s' =>
    simp only [after, hResult] at hSame
    exact hSame ▸ hR.refl s

theorem live_eq (s : Session α) : (live : Action α Unit) s =
    if s.poisoned then .error (.construction .poisoned) s else .ok () s := by
  change (if s.poisoned then throw (.construction .poisoned) else pure () : Action α Unit) s = _
  split <;> rfl

theorem reads_live : Reads (live : Action α Unit) := by
  intro s
  rw [after, live_eq]
  by_cases h : s.poisoned = true
  · rw [if_pos h]
  · rw [if_neg h]

theorem lookup_eq (f : FunctionId) (s : Session α) :
    lookup f s = match s.functions[f.pos]? with
      | some body => .ok body s
      | none => .error (.construction (.unknownFunction f s.functions.length)) s := by
  change (match s.functions[f.pos]? with
    | some body => pure body
    | none => fail (.unknownFunction f s.functions.length) : Action α (FunctionBody α)) s = _
  cases s.functions[f.pos]? <;> rfl

theorem reads_lookup (f : FunctionId) : Reads (lookup f : Action α (FunctionBody α)) := by
  intro s
  rw [after, lookup_eq]
  cases s.functions[f.pos]? <;> rfl

theorem reads_get_bind {next : Session α → Action α β} (h : ∀ s, after (next s) s = s) :
    Reads (get >>= next) :=
  h

theorem reads_checkPoint (x : Point α) : Reads (checkPoint x) := by
  refine reads_get_bind fun s => ?_
  dsimp only
  split <;> rfl

theorem reads_checkExpression (e : Expression α) : Reads (checkExpression e) := by
  refine reads_get_bind fun s => ?_
  dsimp only
  split
  · rfl
  · split <;> rfl

end Reading

/-- A declaring call refuses a poisoned session, poisons it if it fails, and touches it if it
succeeds. -/
theorem declaring_eq (act : Action α β) (s : Session α) :
    declaring act s = if s.poisoned then .error (.construction .poisoned) s else
      match act s with
      | .ok b s' => .ok b s'.touch
      | .error e s' => .error e { s' with poisoned := true } := by
  simp only [declaring, Bind.bind, EStateM.bind, live_eq, Action.poisoning]
  by_cases h : s.poisoned = true
  · rw [if_pos h, if_pos h]
  · rw [if_neg h, if_neg h]
    dsimp only
    cases act s <;> rfl

theorem Within.declaring (hR : Session.AdmitsUpkeep R) {act : Action α β} (h : Within R act) :
    Within R (declaring act) :=
  (reads_live.within hR).bind hR fun _ => (h.poisoning hR).bind hR fun b =>
    (within_modify hR.touch).bind hR fun _ => within_pure hR b

theorem within_appendFunction (hR : Session.Admits R) (body : FunctionBody α) :
    Within R (appendFunction body) :=
  fun s => hR.function s body

theorem within_pushTriple (hR : Session.Admits R) (f : FunctionId) (t : Triple α) :
    Within R (pushTriple f t) := by
  intro s
  have hLookup := lookup_eq f s
  cases hBody : s.functions[f.pos]? with
  | none =>
    rw [hBody] at hLookup
    have hAfter : after (pushTriple f t) s = s := by
      simp only [after, pushTriple, Bind.bind, EStateM.bind, hLookup]
    exact hAfter.symm ▸ hR.refl s
  | some body =>
    rw [hBody] at hLookup
    cases body with
    | leaf cls triples =>
      have hAfter : after (pushTriple f t) s =
          { s with functions := s.functions.set f.pos (.leaf cls (triples ++ [t])) } := by
        simp only [after, pushTriple, Bind.bind, EStateM.bind, hLookup]
        rfl
      exact hAfter.symm ▸ hR.triple t hBody
    | sum terms =>
      have hAfter : after (pushTriple f t) s = s := by
        simp only [after, pushTriple, Bind.bind, EStateM.bind, hLookup]
        rfl
      exact hAfter.symm ▸ hR.refl s

variable [Scalar α]

section Oracles

theorem within_newBasis (hR : Session.AdmitsUpkeep R) (origin : BasisOrigin) :
    Within R (newBasis origin : Action α (Point α)) := by
  refine within_get_bind fun s => ?_
  split
  · rename_i h
    exact hR.basis h
  · exact within_fail hR _ s

theorem within_nextValue (hR : Session.AdmitsUpkeep R) : Within R (nextValue : Action α (Expression α)) :=
  hR.value

theorem within_newTriple (hR : Session.Admits R) (f : FunctionId) (x : Point α)
    {value : Action α (Expression α)} (hValue : Within R value) : Within R (newTriple f x value) :=
  (within_newBasis hR _).bind hR fun _ => hValue.bind hR fun _ =>
    (within_pushTriple hR f _).bind hR fun _ => within_pure hR _

theorem within_evalOracle (hR : Session.Admits R) (x : Point α) (f : FunctionId) :
    Within R (evalOracle x f) := by
  -- the terms of a sum come before it
  induction hPos : f.pos using Nat.strongRecOn generalizing f with
  | ind pos ih =>
    rw [evalOracle]
    refine ((reads_lookup f).within hR).bind hR fun body => ?_
    cases body with
    | leaf cls triples =>
      dsimp only
      split
      · split
        · exact within_pure hR _
        · exact within_newTriple hR f x (within_pure hR _)
      · exact within_newTriple hR f x (within_nextValue hR)
    | sum terms =>
      refine Within.foldlM hR (fun state term => ?_) terms _
      dsimp only
      split
      · rename_i hTerm
        exact (ih _ (hPos ▸ hTerm) _ rfl).bind hR fun _ => within_pure hR _
      · exact within_fail hR _

theorem within_evalValue (hR : Session.Admits R) (x : Point α) (f : FunctionId) :
    Within R (evalValue x f) := by
  induction hPos : f.pos using Nat.strongRecOn generalizing f with
  | ind pos ih =>
    rw [evalValue]
    refine ((reads_lookup f).within hR).bind hR fun body => ?_
    cases body with
    | leaf cls triples =>
      dsimp only
      split
      · exact within_pure hR _
      · exact (within_evalOracle hR x f).bind hR fun _ => within_pure hR _
    | sum terms =>
      refine Within.foldlM hR (fun state term => ?_) terms _
      dsimp only
      split
      · rename_i hTerm
        exact (ih _ (hPos ▸ hTerm) _ rfl).bind hR fun _ => within_pure hR _
      · exact within_fail hR _

theorem within_leafStationaryPoint (hR : Session.Admits R) (f : FunctionId) :
    Within R (leafStationaryPoint f : Action α (Point α)) :=
  (within_newBasis hR _).bind hR fun _ => (within_nextValue hR).bind hR fun _ =>
    (within_pushTriple hR f _).bind hR fun _ => within_pure hR _

open Scalar in
theorem within_sumStationaryPoint (hR : Session.Admits R) (f : FunctionId)
    (terms : List (FunctionId × α)) : Within R (sumStationaryPoint f terms) := by
  refine (Within.forM hR (fun term => ?_) terms).bind hR fun _ => ?_
  · refine ((reads_lookup term.1).within hR).bind hR fun body => ?_
    cases body with
    | leaf cls triples => exact within_pure hR _
    | sum terms => exact within_fail hR _
  cases terms.getLast? with
  | none => exact within_fail hR _
  | some last =>
    dsimp only
    split
    · exact within_fail_bind hR _ _
    · refine (within_newBasis hR _).bind hR fun x => ?_
      refine (Within.foldlM hR (fun _ term => ?_) _ _).bind hR fun _ => ?_
      · exact (within_evalOracle hR x term.1).bind hR fun _ => within_pure hR _
      · exact (within_nextValue hR).bind hR fun _ => (within_pushTriple hR _ _).bind hR fun _ =>
          within_pure hR _

end Oracles

section Interface

theorem within_declareFunction (hR : Session.Admits R) (cls : FunctionClass α) :
    Within R (declareFunction cls) := by
  refine Within.declaring hR ?_
  split
  · exact within_appendFunction hR _
  · exact within_throw hR _

theorem within_checkSum (hR : Session.Admits R) (terms : List (FunctionId × α)) :
    Within R (checkSum terms) := by
  refine within_get_bind fun s => ?_
  dsimp only
  split
  · exact within_fail_bind hR _ _ s
  · refine Within.forM hR (fun term => ?_) terms s
    refine ((reads_lookup term.1).within hR).bind hR fun _ => ?_
    split
    · exact within_pure hR _
    · exact within_fail hR _

theorem within_declareSum (hR : Session.Admits R) (terms : List (FunctionId × α)) :
    Within R (declareSum terms) :=
  ((within_checkSum hR terms).bind hR fun _ => within_appendFunction hR _).declaring hR

theorem within_newValue (hR : Session.AdmitsUpkeep R) : Within R (newValue : Action α (Expression α)) :=
  (within_nextValue hR).declaring hR

theorem within_newGradient (hR : Session.AdmitsUpkeep R) (f : FunctionId) :
    Within R (newGradient f : Action α (Point α)) :=
  (((reads_lookup f).within hR).bind hR fun _ => within_newBasis hR _).declaring hR

theorem within_stationaryPoint (hR : Session.Admits R) (f : FunctionId) :
    Within R (stationaryPoint f : Action α (Point α)) := by
  refine Within.declaring hR (((reads_lookup f).within hR).bind hR fun body => ?_)
  cases body with
  | leaf cls triples => exact within_leafStationaryPoint hR f
  | sum terms => exact within_sumStationaryPoint hR f terms

theorem within_oracle (hR : Session.Admits R) (f : FunctionId) (x : Point α) :
    Within R (oracle f x) :=
  (((reads_checkPoint x).within hR).bind hR fun _ => within_evalOracle hR x f).declaring hR

theorem within_gradient (hR : Session.Admits R) (f : FunctionId) (x : Point α) :
    Within R (gradient f x) :=
  (within_oracle hR f x).bind hR fun _ => within_pure hR _

theorem within_value (hR : Session.Admits R) (f : FunctionId) (x : Point α) :
    Within R (value f x) :=
  (((reads_checkPoint x).within hR).bind hR fun _ => within_evalValue hR x f).declaring hR

omit [Scalar α] in
theorem within_addPoint (hR : Session.Admits R) (f : FunctionId) (x g : Point α)
    (v : Expression α) : Within R (addPoint f x g v) :=
  (((reads_lookup f).within hR).bind hR fun _ => ((reads_checkPoint x).within hR).bind hR fun _ =>
    ((reads_checkPoint g).within hR).bind hR fun _ =>
      ((reads_checkExpression v).within hR).bind hR fun _ =>
        within_pushTriple hR f _).declaring hR

omit [Scalar α] in
theorem within_setMetric (hR : Session.Admits R) (e : Expression α) : Within R (setMetric e) := by
  refine Within.declaring hR (within_get_bind fun s => ?_)
  split
  · exact hR.refl s
  · rename_i hMetric
    refine (reads_checkExpression e).bind_within hR fun _ => ?_
    exact hR.metric e (by simpa using hMetric)

theorem within_gradientStep (hR : Session.Admits R) (f : FunctionId) (x : Point α) (step : α) :
    Within R (gradientStep f x step) :=
  (within_oracle hR f x).bind hR fun _ => within_pure hR _

theorem within_proximalStep (hR : Session.Admits R) (f : FunctionId) (x : Point α) (step : α) :
    Within R (proximalStep f x step) :=
  (within_newGradient hR f).bind hR fun _ => (within_newValue hR).bind hR fun _ =>
    (within_addPoint hR f _ _ _).bind hR fun _ => within_pure hR _

theorem within_compileStore (hR : Session.AdmitsUpkeep R) :
    Within R (compileStore : Action α (Store α × Expression α)) := by
  refine within_get_bind fun s => ?_
  split
  · exact within_fail hR _ s
  · split
    · exact within_pure hR _ s
    · exact within_throw hR _ s

theorem within_compile (hR : Session.AdmitsUpkeep R) : Within R (compile : Action α (Program α)) := by
  refine (reads_live.within hR).bind hR fun _ =>
    ((within_compileStore hR).poisoning hR).bind hR fun compiled => within_get_bind fun s => ?_
  split
  · exact within_pure hR _ s
  · exact within_throw hR _ s

theorem within_solve (hR : Session.AdmitsUpkeep R) (b : Backend α) : Within R (solve b) := by
  refine (reads_live.within hR).bind hR fun _ => within_get_bind fun s => ?_
  split
  · exact hR.refl s
  · refine ((within_compileStore hR).poisoning hR).bind hR (fun compiled => ?_) s
    refine (within_modify fun s => hR.outcome s _ _).bind hR fun _ => within_get_bind fun s => ?_
    split
    · exact (within_modify fun s => hR.outcome s _ _).bind hR (fun _ => within_pure hR _) s
    · exact (within_modify fun s => hR.outcome s _ _).bind hR (fun _ => within_throw hR _) s

end Interface

end Action

end PerformanceEstimation
