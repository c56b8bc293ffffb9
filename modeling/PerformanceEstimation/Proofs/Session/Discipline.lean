import Mathlib
import PerformanceEstimation.Proofs.Session.Effects

/-!
# The discipline of declaring calls

How a session stands (its status, the error of its last solve, and whether it is poisoned) is no
business of the parts from which the declaring calls are made (`Action.Declares`): only `declaring`
looks at it or changes it. A call made of one such part, or of several calls in a row, refuses a
poisoned session, touches the session if it succeeds and poisons it if it fails
(`Action.IsDeclaration`).
-/

set_option autoImplicit false

namespace PerformanceEstimation

variable {α : Type}

/-- How a session stands, whatever was declared in it. -/
structure Standing (α : Type) where
  status : Status
  failure : Option (SolveError α)
  poisoned : Bool

namespace Standing

def touch (t : Standing α) : Standing α :=
  { t with status := if t.status = .solved then .unsolved else t.status }

def poison (t : Standing α) : Standing α :=
  { t with poisoned := true }

theorem status_touch_ne_solved (t : Standing α) : t.touch.status ≠ .solved := by
  unfold touch
  dsimp only
  split
  · simp
  · assumption

theorem touch_touch (t : Standing α) : t.touch.touch = t.touch := by
  rw [touch, if_neg t.status_touch_ne_solved]

end Standing

def Session.standing (s : Session α) : Standing α where
  status := s.status
  failure := s.failure
  poisoned := s.poisoned

theorem Session.touch_touch (s : Session α) : s.touch.touch = s.touch :=
  congrArg (fun status => { s with status }) (congrArg Standing.status s.standing.touch_touch)

namespace Action

variable {β γ : Type}

section Parts

/-- The action leaves the standing of the session alone, and fails only on account of what is being
declared. -/
def Neutral (act : Action α β) (s : Session α) : Prop :=
  match act s with
  | .ok _ s' => s'.standing = s.standing
  | .error e s' => e.isConstructionTime = true ∧ s'.standing = s.standing

def Declares (act : Action α β) : Prop :=
  ∀ s, Neutral act s

theorem declares_pure (b : β) : Declares (pure b : Action α β) :=
  fun _ => rfl

theorem declares_fail (e : ConstructionError) : Declares (fail e : Action α β) :=
  fun _ => ⟨rfl, rfl⟩

theorem neutral_fail_bind (e : ConstructionError) (next : β → Action α γ) (s : Session α) :
    Neutral (fail e >>= next) s :=
  ⟨rfl, rfl⟩

theorem declares_modify {f : Session α → Session α} (h : ∀ s, (f s).standing = s.standing) :
    Declares (modify f : Action α Unit) :=
  h

theorem declares_get_bind {next : Session α → Action α β} (h : ∀ s, Neutral (next s) s) :
    Declares (get >>= next) :=
  h

theorem Declares.bind {act : Action α β} {next : β → Action α γ} (hAct : Declares act)
    (hNext : ∀ b, Declares (next b)) : Declares (act >>= next) := by
  intro s
  have hFirst := hAct s
  unfold Neutral at hFirst ⊢
  simp only [Bind.bind, EStateM.bind]
  cases hResult : act s with
  | error e s' =>
    rw [hResult] at hFirst
    exact hFirst
  | ok b s' =>
    rw [hResult] at hFirst
    have hSecond := hNext b s'
    unfold Neutral at hSecond
    dsimp only at hFirst ⊢
    cases hLast : next b s' with
    | ok c s'' =>
      rw [hLast] at hSecond
      exact hSecond.trans hFirst
    | error e s'' =>
      rw [hLast] at hSecond
      exact ⟨hSecond.1, hSecond.2.trans hFirst⟩

theorem Declares.forM {act : β → Action α PUnit} (h : ∀ b, Declares (act b)) (bs : List β) :
    Declares (bs.forM act) := by
  induction bs with
  | nil => exact declares_pure _
  | cons b bs ih => exact (h b).bind fun _ => ih

theorem Declares.foldlM {act : γ → β → Action α γ} (h : ∀ c b, Declares (act c b)) (bs : List β)
    (c : γ) : Declares (bs.foldlM act c) := by
  induction bs generalizing c with
  | nil => exact declares_pure _
  | cons b bs ih => exact (h c b).bind ih

theorem declares_lookup (f : FunctionId) : Declares (lookup f : Action α (FunctionBody α)) := by
  intro s
  rw [Neutral, lookup_eq]
  cases s.functions[f.pos]? with
  | some body => rfl
  | none => exact ⟨rfl, rfl⟩

theorem declares_checkPoint (x : Point α) : Declares (checkPoint x) := by
  refine declares_get_bind fun s => ?_
  dsimp only
  split
  · exact declares_fail _ s
  · rfl

theorem declares_checkExpression (e : Expression α) : Declares (checkExpression e) := by
  refine declares_get_bind fun s => ?_
  dsimp only
  split
  · exact declares_fail _ s
  · split
    · exact declares_fail _ s
    · rfl

theorem declares_pushTriple (f : FunctionId) (t : Triple α) : Declares (pushTriple f t) := by
  refine (declares_lookup f).bind fun body => ?_
  cases body with
  | leaf cls triples => exact declares_modify fun _ => rfl
  | sum terms => exact declares_fail _

theorem declares_appendFunction (body : FunctionBody α) : Declares (appendFunction body) :=
  fun _ => rfl

variable [Scalar α]

theorem declares_checkSum (terms : List (FunctionId × α)) : Declares (checkSum terms) := by
  refine declares_get_bind fun s => ?_
  dsimp only
  split
  · exact neutral_fail_bind _ _ s
  · refine Declares.forM (fun term => (declares_lookup term.1).bind fun _ => ?_) terms s
    split
    · exact declares_pure _
    · exact declares_fail _

theorem declares_newBasis (origin : BasisOrigin) :
    Declares (newBasis origin : Action α (Point α)) := by
  refine declares_get_bind fun s => ?_
  split
  · rfl
  · exact declares_fail _ s

theorem declares_nextValue : Declares (nextValue : Action α (Expression α)) :=
  fun _ => rfl

theorem declares_pushConstraint (c : Constraint α) (origin : ConstraintOrigin) :
    Declares (pushConstraint c origin) := by
  refine (declares_checkExpression c.lhs).bind fun _ => declares_get_bind fun s => ?_
  split
  · rfl
  · exact ⟨rfl, rfl⟩

theorem declares_newTriple (f : FunctionId) (x : Point α) {value : Action α (Expression α)}
    (h : Declares value) : Declares (newTriple f x value) :=
  (declares_newBasis _).bind fun _ => h.bind fun _ => (declares_pushTriple f _).bind fun _ =>
    declares_pure _

theorem declares_evalOracle (x : Point α) (f : FunctionId) : Declares (evalOracle x f) := by
  -- the terms of a sum come before it
  induction hPos : f.pos using Nat.strongRecOn generalizing f with
  | ind pos ih =>
    rw [evalOracle]
    refine (declares_lookup f).bind fun body => ?_
    cases body with
    | leaf cls triples =>
      dsimp only
      split
      · split
        · exact declares_pure _
        · exact declares_newTriple f x (declares_pure _)
      · exact declares_newTriple f x declares_nextValue
    | sum terms =>
      refine Declares.foldlM (fun state term => ?_) terms _
      dsimp only
      split
      · rename_i hTerm
        exact (ih _ (hPos ▸ hTerm) _ rfl).bind fun _ => declares_pure _
      · exact declares_fail _

theorem declares_evalValue (x : Point α) (f : FunctionId) : Declares (evalValue x f) := by
  induction hPos : f.pos using Nat.strongRecOn generalizing f with
  | ind pos ih =>
    rw [evalValue]
    refine (declares_lookup f).bind fun body => ?_
    cases body with
    | leaf cls triples =>
      dsimp only
      split
      · exact declares_pure _
      · exact (declares_evalOracle x f).bind fun _ => declares_pure _
    | sum terms =>
      refine Declares.foldlM (fun state term => ?_) terms _
      dsimp only
      split
      · rename_i hTerm
        exact (ih _ (hPos ▸ hTerm) _ rfl).bind fun _ => declares_pure _
      · exact declares_fail _

theorem declares_leafStationaryPoint (f : FunctionId) :
    Declares (leafStationaryPoint f : Action α (Point α)) :=
  (declares_newBasis _).bind fun _ => declares_nextValue.bind fun _ =>
    (declares_pushTriple f _).bind fun _ => declares_pure _

theorem declares_sumStationaryPoint (f : FunctionId) (terms : List (FunctionId × α)) :
    Declares (sumStationaryPoint f terms) := by
  refine (Declares.forM (fun term => ?_) terms).bind fun _ => ?_
  · refine (declares_lookup term.1).bind fun body => ?_
    cases body with
    | leaf cls triples => exact declares_pure _
    | sum terms => exact declares_fail _
  cases terms.getLast? with
  | none => exact declares_fail _
  | some last =>
    dsimp only
    split
    · exact neutral_fail_bind _ _
    · refine (declares_newBasis _).bind fun x => ?_
      refine (Declares.foldlM (fun _ term => ?_) _ _).bind fun _ => ?_
      · exact (declares_evalOracle x term.1).bind fun _ => declares_pure _
      · exact declares_nextValue.bind fun _ => (declares_pushTriple _ _).bind fun _ =>
          declares_pure _

end Parts

section Declarations

/-- The discipline of a call that declares something, on its own or by calls one after the other.
-/
structure IsDeclaration (act : Action α β) : Prop where
  refuse : ∀ {s}, s.poisoned = true → act s = .error (.construction .poisoned) s
  succeed : ∀ {s b s'}, act s = .ok b s' → s'.standing = s.standing.touch
  poison : ∀ {s e s'}, s.poisoned = false → act s = .error e s' → e.isConstructionTime = true ∧
    (s'.standing = s.standing.poison ∨ s'.standing = s.standing.touch.poison)

theorem Declares.declaring {act : Action α β} (h : Declares act) :
    IsDeclaration (Action.declaring act) where
  refuse {s} hPoisoned := by rw [declaring_eq, if_pos hPoisoned]
  succeed {s b s'} hOk := by
    have hNeutral := h s
    rw [Neutral] at hNeutral
    rw [declaring_eq] at hOk
    split at hOk
    · cases hOk
    · cases hResult : act s with
      | error e t =>
        rw [hResult] at hOk
        cases hOk
      | ok b t =>
        rw [hResult] at hOk hNeutral
        cases hOk
        exact congrArg Standing.touch hNeutral
  poison {s e s'} hLive hError := by
    have hNeutral := h s
    rw [Neutral] at hNeutral
    rw [declaring_eq, if_neg (by simp [hLive])] at hError
    cases hResult : act s with
    | ok b t =>
      rw [hResult] at hError
      cases hError
    | error e t =>
      rw [hResult] at hError hNeutral
      cases hError
      exact ⟨hNeutral.1, .inl (congrArg Standing.poison hNeutral.2)⟩

namespace IsDeclaration

theorem map {act : Action α β} (h : IsDeclaration act) (f : β → γ) :
    IsDeclaration (act >>= fun b => pure (f b)) where
  refuse hPoisoned := by simp only [Bind.bind, EStateM.bind, h.refuse hPoisoned]
  succeed {s c s'} hOk := by
    simp only [Bind.bind, EStateM.bind] at hOk
    cases hResult : act s with
    | error e t =>
      rw [hResult] at hOk
      cases hOk
    | ok b t =>
      rw [hResult] at hOk
      cases hOk
      exact h.succeed hResult
  poison {s e s'} hLive hError := by
    simp only [Bind.bind, EStateM.bind] at hError
    cases hResult : act s with
    | ok b t =>
      rw [hResult] at hError
      cases hError
    | error e t =>
      rw [hResult] at hError
      cases hError
      exact h.poison hLive hResult

/-- If the second call fails, the first one has already touched the session. -/
theorem bind {act : Action α β} {next : β → Action α γ} (h : IsDeclaration act)
    (hNext : ∀ b, IsDeclaration (next b)) : IsDeclaration (act >>= next) where
  refuse hPoisoned := by simp only [Bind.bind, EStateM.bind, h.refuse hPoisoned]
  succeed {s c s'} hOk := by
    simp only [Bind.bind, EStateM.bind] at hOk
    cases hResult : act s with
    | error e t =>
      rw [hResult] at hOk
      cases hOk
    | ok b t =>
      rw [hResult] at hOk
      rw [(hNext b).succeed hOk, h.succeed hResult, Standing.touch_touch]
  poison {s e s'} hLive hError := by
    simp only [Bind.bind, EStateM.bind] at hError
    cases hResult : act s with
    | error e t =>
      rw [hResult] at hError
      cases hError
      exact h.poison hLive hResult
    | ok b t =>
      rw [hResult] at hError
      have hTouched := h.succeed hResult
      have hLive' : t.poisoned = false := (congrArg Standing.poisoned hTouched).trans hLive
      obtain ⟨hError, hStanding⟩ := (hNext b).poison hLive' hError
      rw [hTouched, Standing.touch_touch, or_self] at hStanding
      exact ⟨hError, .inr hStanding⟩

end IsDeclaration

variable [Scalar α]

theorem isDeclaration_declareFunction (cls : FunctionClass α) :
    IsDeclaration (declareFunction cls) := by
  refine Declares.declaring ?_
  split
  · exact declares_appendFunction _
  · exact fun _ => ⟨rfl, rfl⟩

theorem isDeclaration_newGradient (f : FunctionId) :
    IsDeclaration (newGradient f : Action α (Point α)) :=
  ((declares_lookup f).bind fun _ => declares_newBasis _).declaring

theorem isDeclaration_stationaryPoint (f : FunctionId) :
    IsDeclaration (stationaryPoint f : Action α (Point α)) := by
  refine ((declares_lookup f).bind fun body => ?_).declaring
  cases body with
  | leaf cls triples => exact declares_leafStationaryPoint f
  | sum terms => exact declares_sumStationaryPoint f terms

theorem isDeclaration_oracle (f : FunctionId) (x : Point α) : IsDeclaration (oracle f x) :=
  ((declares_checkPoint x).bind fun _ => declares_evalOracle x f).declaring

theorem isDeclaration_value (f : FunctionId) (x : Point α) : IsDeclaration (value f x) :=
  ((declares_checkPoint x).bind fun _ => declares_evalValue x f).declaring

omit [Scalar α] in
theorem isDeclaration_addPoint (f : FunctionId) (x g : Point α) (v : Expression α) :
    IsDeclaration (addPoint f x g v) :=
  ((declares_lookup f).bind fun _ => (declares_checkPoint x).bind fun _ =>
    (declares_checkPoint g).bind fun _ => (declares_checkExpression v).bind fun _ =>
      declares_pushTriple f _).declaring

omit [Scalar α] in
theorem isDeclaration_setMetric (e : Expression α) : IsDeclaration (setMetric e) := by
  refine (declares_get_bind fun s => ?_).declaring
  split
  · exact neutral_fail_bind _ _ s
  · refine (declares_checkExpression e).bind (fun _ => ?_) s
    exact declares_modify fun _ => rfl

theorem isDeclaration_proximalStep (f : FunctionId) (x : Point α) (step : α) :
    IsDeclaration (proximalStep f x step) :=
  (isDeclaration_newGradient f).bind fun _ => declares_nextValue.declaring.bind fun _ =>
    (isDeclaration_addPoint f _ _ _).map _

end Declarations

end Action

end PerformanceEstimation
