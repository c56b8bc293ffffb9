import Mathlib
import PerformanceEstimation.Proofs.Algebra.Equality
import PerformanceEstimation.Proofs.Session.Compilation
import PerformanceEstimation.Proofs.Session.Interface

/-!
# What a session recalls

The first triple of a leaf at a point settles the value there, and the gradient too if the class has
only one. `Session.known?` reads both off the triples, through sums of any depth. A session that
grows recalls what it recalled before (`known?_of_precedes`), a successful evaluation leaves its
result to be recalled, and what is recalled is returned without a change. Hence two evaluations at
equal points agree, whatever happens in between.
-/

set_option autoImplicit false

namespace PerformanceEstimation

open Session

variable {α : Type} [Scalar α]

namespace Session

/-- Gradient and value that the first triples at a point give to a function. -/
def known? (s : Session α) (x : Point α) (f : FunctionId) : Option (Point α × Expression α) :=
  match s.functions[f.pos]? with
  | none => none
  | some (.leaf _ triples) => (triples.find? (·.point == x)).map fun t => (t.gradient, t.value)
  | some (.sum terms) =>
    terms.foldlM (fun (g, v) (t, w) =>
      if _h : t.pos < f.pos then
        (s.known? x t).map fun (gt, vt) => (g.axpy w gt, v.axpy w vt)
      else none) (0, 0)
termination_by f.pos

omit [Scalar α] in
/-- The second function is the first one or, at any depth, a term of it. -/
inductive Reaches (s : Session α) : FunctionId → FunctionId → Prop
  | refl (f : FunctionId) : Reaches s f f
  | term {f g : FunctionId} {terms : List (FunctionId × α)} {term : FunctionId × α}
    (hSum : s.functions[f.pos]? = some (.sum terms)) (hTerm : term ∈ terms)
    (h : Reaches s term.1 g) : Reaches s f g

omit [Scalar α] in
/-- Every leaf of the function has a single gradient at a point. -/
def SingleValued (s : Session α) (f : FunctionId) : Prop :=
  ∀ g cls triples, s.Reaches f g → s.functions[g.pos]? = some (.leaf cls triples) →
    cls.singleValued = true

/-- The function has been evaluated at the point, and this is the value. -/
def Evaluates (s : Session α) (f : FunctionId) (x : Point α) (v : Expression α) (s' : Session α) :
    Prop :=
  Action.value f x s = .ok v s' ∨ ∃ g, Action.oracle f x s = .ok (g, v) s'

end Session

/-- The action returns the result unless the session is poisoned, and declares nothing. -/
def Action.Answers {β : Type} (act : Action α β) (s : Session α) (b : β) : Prop :=
  act s = if s.poisoned then .error (.construction .poisoned) s else .ok b s.touch

namespace Action

section Binds

variable {β γ : Type} {s s' : Session α} {f : FunctionId}

omit [Scalar α] in
theorem bind_eq_ok_iff {act : Action α β} {next : β → Action α γ} {c : γ} :
    (act >>= next) s = .ok c s' ↔ ∃ b s₁, act s = .ok b s₁ ∧ next b s₁ = .ok c s' := by
  simp only [Bind.bind, EStateM.bind]
  cases act s with
  | ok b s₁ => simp
  | error e s₁ => simp

omit [Scalar α] in
theorem exists_ok_of_bind {act : Action α β} {next : β → Action α γ}
    (h : ∃ b s₁, act s = .ok b s₁ ∧ ∃ c s', next b s₁ = .ok c s') :
    ∃ c s', (act >>= next) s = .ok c s' := by
  obtain ⟨b, s₁, hAct, c, s', hNext⟩ := h
  exact ⟨c, s', bind_eq_ok_iff.mpr ⟨b, s₁, hAct, hNext⟩⟩

omit [Scalar α] in
theorem lookup_bind_of_some {body : FunctionBody α}
    (h : s.functions[f.pos]? = some body) (next : FunctionBody α → Action α β) :
    (lookup f >>= next) s = next body s := by
  simp only [Bind.bind, EStateM.bind, lookup_eq, h]

omit [Scalar α] in
theorem lookup_bind_of_none (h : s.functions[f.pos]? = none)
    (next : FunctionBody α → Action α β) :
    (lookup f >>= next) s =
      .error (.construction (.unknownFunction f s.functions.length)) s := by
  simp only [Bind.bind, EStateM.bind, lookup_eq, h]

end Binds

end Action

section Folds

variable {β γ δ : Type}

theorem foldlM_eq_some_of_imp {act act' : β → γ → Option β} {cs : List γ} {b r : β}
    (hStep : ∀ b, ∀ c ∈ cs, ∀ b', act b c = some b' → act' b c = some b')
    (h : cs.foldlM act b = some r) : cs.foldlM act' b = some r := by
  induction cs generalizing b with
  | nil => exact h
  | cons c cs ih =>
    rw [List.foldlM_cons] at h ⊢
    obtain ⟨b', hFirst, hRest⟩ := Option.bind_eq_some_iff.mp h
    rw [hStep b c List.mem_cons_self b' hFirst]
    exact ih (fun b c hc => hStep b c (List.mem_cons_of_mem _ hc)) hRest

omit [Scalar α] in
/-- A fold that only reads the session follows one that needs none. -/
theorem foldlM_eq_ok_of_some {s : Session α} {act : β → γ → Option β}
    {act' : δ → γ → Action α δ} {cs : List γ} {b r : β} (π : β → δ)
    (hStep : ∀ b, ∀ c ∈ cs, ∀ b', act b c = some b' → act' (π b) c s = .ok (π b') s)
    (h : cs.foldlM act b = some r) : cs.foldlM act' (π b) s = .ok (π r) s := by
  induction cs generalizing b with
  | nil =>
    cases h
    rfl
  | cons c cs ih =>
    rw [List.foldlM_cons] at h ⊢
    obtain ⟨b', hFirst, hRest⟩ := Option.bind_eq_some_iff.mp h
    simp only [Bind.bind, EStateM.bind, hStep b c List.mem_cons_self b' hFirst]
    exact ih (fun b c hc => hStep b c (List.mem_cons_of_mem _ hc)) hRest

omit [Scalar α] in
/-- What every step of a fold leaves to the last session can be folded there again. -/
theorem exists_foldlM_eq_some {s s' : Session α} {act : β → γ → Option β}
    {act' : δ → γ → Action α δ} {cs : List γ} {b : β} {d d' : δ} (Agree : β → δ → Prop)
    (hGrow : ∀ d c, Action.Within Precedes (act' d c))
    (hStep : ∀ b d, ∀ c ∈ cs, ∀ s₁ d' s₂, Agree b d → act' d c s₁ = .ok d' s₂ → s₂.Precedes s' →
      ∃ b', act b c = some b' ∧ Agree b' d')
    (hAgree : Agree b d) (h : cs.foldlM act' d s = .ok d' s') :
    ∃ b', cs.foldlM act b = some b' ∧ Agree b' d' := by
  induction cs generalizing b d s with
  | nil =>
    cases h
    exact ⟨b, rfl, hAgree⟩
  | cons c cs ih =>
    rw [List.foldlM_cons] at h ⊢
    obtain ⟨d₁, s₁, hFirst, hLast⟩ := Action.bind_eq_ok_iff.mp h
    have hRest : s₁.Precedes s' :=
      (Action.Within.foldlM admits_precedes.toAdmitsUpkeep hGrow cs d₁).of_eq_ok hLast
    obtain ⟨b₁, hSome, hAgree₁⟩ := hStep b d c List.mem_cons_self s d₁ s₁ hAgree hFirst hRest
    obtain ⟨b', hFold, hAgree'⟩ :=
      ih (fun b d c hc => hStep b d c (List.mem_cons_of_mem _ hc)) hAgree₁ hLast
    exact ⟨b', Option.bind_eq_some_iff.mpr ⟨b₁, hSome, hFold⟩, hAgree'⟩

end Folds

namespace Session

variable {s s' : Session α} {x x' : Point α} {f : FunctionId} {g : Point α} {v : Expression α}

section Memory

omit [Scalar α] in
theorem Reaches.of_precedes (hPrecedes : s.Precedes s') {g : FunctionId} (h : s.Reaches f g) :
    s'.Reaches f g := by
  induction h with
  | refl f => exact .refl f
  | term hSum hTerm _ ih => exact .term (hPrecedes.sum hSum) hTerm ih

omit [Scalar α] in
theorem SingleValued.of_precedes (hPrecedes : s.Precedes s') (h : s'.SingleValued f) :
    s.SingleValued f := by
  intro g cls triples hReaches hLeaf
  obtain ⟨triples', hLeaf', -⟩ := hPrecedes.leaf hLeaf
  exact h g cls triples' (hReaches.of_precedes hPrecedes) hLeaf'

omit [Scalar α] in
theorem SingleValued.term (h : s.SingleValued f) {terms : List (FunctionId × α)}
    (hSum : s.functions[f.pos]? = some (.sum terms)) {term : FunctionId × α}
    (hTerm : term ∈ terms) : s.SingleValued term.1 :=
  fun g cls triples hReaches => h g cls triples (.term hSum hTerm hReaches)

theorem known?_leaf {cls : FunctionClass α} {triples : List (Triple α)}
    (hLeaf : s.functions[f.pos]? = some (.leaf cls triples)) :
    s.known? x f = (triples.find? (·.point == x)).map fun t => (t.gradient, t.value) := by
  rw [known?]
  simp only [hLeaf]

theorem known?_sum {terms : List (FunctionId × α)}
    (hSum : s.functions[f.pos]? = some (.sum terms)) :
    s.known? x f = terms.foldlM (fun (g, v) (t, w) =>
      if _h : t.pos < f.pos then
        (s.known? x t).map fun (gt, vt) => (g.axpy w gt, v.axpy w vt)
      else none) (0, 0) := by
  rw [known?]
  simp only [hSum]

theorem exists_body_of_known {r : Point α × Expression α} (h : s.known? x f = some r) :
    ∃ body, s.functions[f.pos]? = some body := by
  cases hBody : s.functions[f.pos]? with
  | none =>
    rw [known?] at h
    simp only [hBody] at h
    cases h
  | some body => exact ⟨body, rfl⟩

theorem known?_of_precedes [PartialEquivBEq α] (h : s.Precedes s') (hEqual : (x == x') = true)
    {r : Point α × Expression α} (hKnown : s.known? x f = some r) :
    s'.known? x' f = some r := by
  induction hPos : f.pos using Nat.strongRecOn generalizing f r with
  | ind pos ih =>
    obtain ⟨body, hBody⟩ := exists_body_of_known hKnown
    cases body with
    | leaf cls triples =>
      obtain ⟨triples', hBody', hPrefix⟩ := h.leaf hBody
      rw [known?_leaf hBody] at hKnown
      rw [known?_leaf hBody']
      obtain ⟨first, hFirst, rfl⟩ := Option.map_eq_some_iff.mp hKnown
      have hSame : (fun t : Triple α => t.point == x') = fun t => t.point == x :=
        funext fun t => (BEq.congr_right hEqual).symm
      rw [hSame, hPrefix.find?_eq_some hFirst, Option.map_some]
    | sum terms =>
      rw [known?_sum hBody] at hKnown
      rw [known?_sum (h.sum hBody)]
      refine foldlM_eq_some_of_imp ?_ hKnown
      rintro ⟨g, v⟩ ⟨t, w⟩ - r' hTerm
      dsimp only at hTerm ⊢
      split at hTerm
      · rename_i hLess
        obtain ⟨⟨gt, vt⟩, hOld, rfl⟩ := Option.map_eq_some_iff.mp hTerm
        rw [dif_pos hLess, ih _ (hPos ▸ hLess) hOld rfl, Option.map_some]
      · cases hTerm

end Memory

end Session

namespace Action

variable {s s' : Session α} {x : Point α} {f : FunctionId}

section Replay

theorem evalValue_of_known {g : Point α} {v : Expression α}
    (h : s.known? x f = some (g, v)) : evalValue x f s = .ok v s := by
  induction hPos : f.pos using Nat.strongRecOn generalizing f g v with
  | ind pos ih =>
    obtain ⟨body, hBody⟩ := exists_body_of_known h
    rw [evalValue, lookup_bind_of_some hBody]
    cases body with
    | leaf cls triples =>
      rw [known?_leaf hBody] at h
      obtain ⟨first, hFirst, hResult⟩ := Option.map_eq_some_iff.mp h
      cases hResult
      simp only [hFirst]
      rfl
    | sum terms =>
      rw [known?_sum hBody] at h
      refine foldlM_eq_ok_of_some Prod.snd ?_ h
      rintro ⟨g, v⟩ ⟨t, w⟩ - r' hTerm
      dsimp only at hTerm ⊢
      split at hTerm
      · rename_i hLess
        obtain ⟨⟨gt, vt⟩, hOld, rfl⟩ := Option.map_eq_some_iff.mp hTerm
        rw [dif_pos hLess]
        exact bind_eq_ok_iff.mpr ⟨vt, s, ih _ (hPos ▸ hLess) hOld rfl, rfl⟩
      · cases hTerm

theorem evalOracle_of_known {r : Point α × Expression α} (hSingle : s.SingleValued f)
    (h : s.known? x f = some r) : evalOracle x f s = .ok r s := by
  induction hPos : f.pos using Nat.strongRecOn generalizing f r with
  | ind pos ih =>
    obtain ⟨body, hBody⟩ := exists_body_of_known h
    rw [evalOracle, lookup_bind_of_some hBody]
    cases body with
    | leaf cls triples =>
      rw [known?_leaf hBody] at h
      obtain ⟨first, hFirst, rfl⟩ := Option.map_eq_some_iff.mp h
      simp only [hFirst]
      rw [if_pos (hSingle f cls triples (.refl f) hBody)]
      rfl
    | sum terms =>
      rw [known?_sum hBody] at h
      refine foldlM_eq_ok_of_some id ?_ h
      rintro ⟨g, v⟩ ⟨t, w⟩ hMem r' hTerm
      dsimp only [id] at hTerm ⊢
      split at hTerm
      · rename_i hLess
        obtain ⟨⟨gt, vt⟩, hOld, rfl⟩ := Option.map_eq_some_iff.mp hTerm
        rw [dif_pos hLess]
        exact bind_eq_ok_iff.mpr
          ⟨(gt, vt), s, ih _ (hPos ▸ hLess) (hSingle.term hBody hMem) hOld rfl, rfl⟩
      · cases hTerm

end Replay

section Remembering

theorem known_of_evalOracle_leaf (hx : (x == x) = true) {cls : FunctionClass α}
    {triples : List (Triple α)} (hLeaf : s.functions[f.pos]? = some (.leaf cls triples))
    {r : Point α × Expression α} (h : evalOracle x f s = .ok r s') :
    ∃ g, s'.known? x f = some (g, r.2) ∧ (s'.SingleValued f → g = r.1) := by
  have hSet (new : FunctionBody α) : (s.functions.set f.pos new)[f.pos]? = some new :=
    List.getElem?_set_self (List.getElem?_eq_some_iff.mp hLeaf).1
  have hEvaluates := evaluatesLeaf (x := x) hLeaf
  rw [h] at hEvaluates
  cases hEvaluates with
  | known hFirst hSingle =>
    rw [known?_leaf hLeaf, hFirst]
    exact ⟨_, rfl, fun _ => rfl⟩
  | again hFirst hSeveral hRoom =>
    rw [known?_leaf (hSet _), List.find?_append, hFirst]
    refine ⟨_, rfl, fun hSingle => ?_⟩
    rw [hSingle f cls _ (.refl f) (hSet _)] at hSeveral
    cases hSeveral
  | new hNone hRoom =>
    rw [known?_leaf (hSet _), List.find?_append, hNone, Option.none_or, List.find?_singleton,
      if_pos hx]
    exact ⟨_, rfl, fun _ => rfl⟩

variable [PartialEquivBEq α]

theorem known_of_evalOracle (hx : (x == x) = true) {r : Point α × Expression α}
    (h : evalOracle x f s = .ok r s') :
    ∃ g, s'.known? x f = some (g, r.2) ∧ (s'.SingleValued f → g = r.1) := by
  induction hPos : f.pos using Nat.strongRecOn generalizing f r s s' with
  | ind pos ih =>
    have hGrow : s.Precedes s' := (within_evalOracle admits_precedes x f).of_eq_ok h
    cases hBody : s.functions[f.pos]? with
    | none =>
      rw [evalOracle, lookup_bind_of_none hBody] at h
      cases h
    | some body =>
      cases body with
      | leaf cls triples => exact known_of_evalOracle_leaf hx hBody h
      | sum terms =>
        rw [evalOracle, lookup_bind_of_some hBody] at h
        have hBody' := hGrow.sum hBody
        rw [known?_sum hBody']
        suffices hFold : ∃ old : Point α × Expression α, terms.foldlM (fun (g, v) (t, w) =>
            if _h : t.pos < f.pos then
              (s'.known? x t).map fun (gt, vt) => (g.axpy w gt, v.axpy w vt)
            else none) (0, 0) = some old ∧ old.2 = r.2 ∧ (s'.SingleValued f → old.1 = r.1) by
          obtain ⟨⟨g, v⟩, hSome, rfl, hGradient⟩ := hFold
          exact ⟨g, hSome, hGradient⟩
        refine exists_foldlM_eq_some (fun old new : Point α × Expression α =>
          old.2 = new.2 ∧ (s'.SingleValued f → old.1 = new.1))
          (fun state term => ?_) ?_ ⟨rfl, fun _ => rfl⟩ h
        · dsimp only
          split
          · exact (within_evalOracle admits_precedes x term.1).bind admits_precedes.toAdmitsUpkeep
              fun _ => within_pure admits_precedes.toAdmitsUpkeep _
          · exact within_fail admits_precedes.toAdmitsUpkeep _
        · rintro ⟨g, v⟩ ⟨g', v'⟩ ⟨t, w⟩ hTerm s₁ r' s₂ ⟨rfl, hg⟩ hStep hLater
          dsimp only at hStep ⊢
          split at hStep
          · rename_i hLess
            obtain ⟨⟨gt', vt⟩, s₃, hEval, hResult⟩ := bind_eq_ok_iff.mp hStep
            cases hResult
            -- the term is known from its evaluation on, hence in the last session
            obtain ⟨gt, hKnown, hSame⟩ := ih _ (hPos ▸ hLess) hEval rfl
            rw [dif_pos hLess, known?_of_precedes hLater hx hKnown, Option.map_some]
            refine ⟨_, rfl, rfl, fun hSingle => ?_⟩
            obtain rfl : g = g' := hg hSingle
            rw [hSame ((hSingle.term hBody' hTerm).of_precedes hLater)]
          · cases hStep

theorem known_of_evalValue (hx : (x == x) = true) {v : Expression α}
    (h : evalValue x f s = .ok v s') : ∃ g, s'.known? x f = some (g, v) := by
  induction hPos : f.pos using Nat.strongRecOn generalizing f v s s' with
  | ind pos ih =>
    have hGrow : s.Precedes s' := (within_evalValue admits_precedes x f).of_eq_ok h
    rw [evalValue] at h
    cases hBody : s.functions[f.pos]? with
    | none =>
      rw [lookup_bind_of_none hBody] at h
      cases h
    | some body =>
      rw [lookup_bind_of_some hBody] at h
      cases body with
      | leaf cls triples =>
        cases hFind : triples.find? (·.point == x) with
        | some first =>
          simp only [hFind] at h
          cases h
          rw [known?_leaf hBody, hFind]
          exact ⟨_, rfl⟩
        | none =>
          simp only [hFind] at h
          obtain ⟨r, s₁, hEval, hResult⟩ := bind_eq_ok_iff.mp h
          cases hResult
          obtain ⟨g, hKnown, -⟩ := known_of_evalOracle_leaf hx hBody hEval
          exact ⟨g, hKnown⟩
      | sum terms =>
        rw [known?_sum (hGrow.sum hBody)]
        suffices hFold : ∃ old : Point α × Expression α, terms.foldlM (fun (g, v) (t, w) =>
            if _h : t.pos < f.pos then
              (s'.known? x t).map fun (gt, vt) => (g.axpy w gt, v.axpy w vt)
            else none) (0, 0) = some old ∧ old.2 = v by
          obtain ⟨⟨g, _⟩, hSome, rfl⟩ := hFold
          exact ⟨g, hSome⟩
        refine exists_foldlM_eq_some (fun (old : Point α × Expression α) new => old.2 = new)
          (fun state term => ?_) ?_ rfl h
        · dsimp only
          split
          · exact (within_evalValue admits_precedes x term.1).bind admits_precedes.toAdmitsUpkeep
              fun _ => within_pure admits_precedes.toAdmitsUpkeep _
          · exact within_fail admits_precedes.toAdmitsUpkeep _
        · rintro ⟨g, v⟩ _ ⟨t, w⟩ - s₁ v' s₂ rfl hStep hLater
          dsimp only at hStep ⊢
          split at hStep
          · rename_i hLess
            obtain ⟨vt, s₃, hEval, hResult⟩ := bind_eq_ok_iff.mp hStep
            cases hResult
            obtain ⟨gt, hKnown⟩ := ih _ (hPos ▸ hLess) hEval rfl
            rw [dif_pos hLess, known?_of_precedes hLater hx hKnown, Option.map_some]
            exact ⟨_, rfl, rfl⟩
          · cases hStep

end Remembering

end Action

section Agreement

open PerformanceEstimation.Action

variable {s s₁ : Session α} {f : FunctionId} {x x' : Point α} {v : Expression α}

omit [Scalar α] in
theorem declaring_eq_ok_iff {β : Type} {act : Action α β} {b : β} :
    declaring act s = .ok b s₁ ↔
      s.poisoned = false ∧ ∃ s', act s = .ok b s' ∧ s₁ = s'.touch := by
  rw [declaring_eq]
  by_cases hPoisoned : s.poisoned = true
  · simp [hPoisoned]
  · rw [if_neg hPoisoned]
    cases act s with
    | ok b' s' => simp [hPoisoned, and_comm, eq_comm]
    | error e s' => simp

omit [Scalar α] in
theorem answers_declaring {β : Type} {act : Action α β} {b : β} (h : act s = .ok b s) :
    (declaring act).Answers s b := by
  unfold Answers
  rw [declaring_eq, h]

omit [Scalar α] in
theorem checkPoint_bind_eq_ok_iff {β : Type} {next : Unit → Action α β} {b : β} :
    (checkPoint x >>= next) s = .ok b s₁ ↔ x.Below s.basis.size ∧ next () s = .ok b s₁ := by
  have hSame := reads_checkPoint x s
  rw [after] at hSame
  rw [bind_eq_ok_iff]
  constructor
  · rintro ⟨_, s', hCheck, hNext⟩
    rw [hCheck] at hSame
    cases hSame
    exact ⟨checkPoint_eq_ok_iff.mp hCheck, hNext⟩
  · rintro ⟨hBelow, hNext⟩
    exact ⟨(), s, checkPoint_eq_ok_iff.mpr hBelow, hNext⟩

variable [PartialEquivBEq α]

theorem known_of_oracle (hx : (x == x) = true) {g : Point α} (h : oracle f x s = .ok (g, v) s₁) :
    x.Below s₁.basis.size ∧
      ∃ g', s₁.known? x f = some (g', v) ∧ (s₁.SingleValued f → g' = g) := by
  obtain ⟨-, s', hCall, rfl⟩ := declaring_eq_ok_iff.mp h
  obtain ⟨hBelow, hEval⟩ := checkPoint_bind_eq_ok_iff.mp hCall
  have hTouch : s'.Precedes s'.touch := admits_precedes.touch s'
  have hGrow : s.Precedes s' := (within_evalOracle admits_precedes x f).of_eq_ok hEval
  obtain ⟨g', hKnown, hSame⟩ := known_of_evalOracle hx hEval
  exact ⟨hBelow.mono hGrow.size_le, g', known?_of_precedes hTouch hx hKnown,
    fun hSingle => hSame (hSingle.of_precedes hTouch)⟩

theorem Session.Evaluates.known (hx : (x == x) = true) (h : s.Evaluates f x v s₁) :
    x.Below s₁.basis.size ∧ ∃ g, s₁.known? x f = some (g, v) := by
  rcases h with hValue | ⟨g, hOracle⟩
  · obtain ⟨-, s', hCall, rfl⟩ := declaring_eq_ok_iff.mp hValue
    obtain ⟨hBelow, hEval⟩ := checkPoint_bind_eq_ok_iff.mp hCall
    have hGrow : s.Precedes s' := (within_evalValue admits_precedes x f).of_eq_ok hEval
    obtain ⟨g, hKnown⟩ := known_of_evalValue hx hEval
    exact ⟨hBelow.mono hGrow.size_le, g,
      known?_of_precedes (admits_precedes.touch s') hx hKnown⟩
  · obtain ⟨hBelow, g', hKnown, -⟩ := known_of_oracle hx hOracle
    exact ⟨hBelow, g', hKnown⟩

/-- After a function was evaluated at a point, every later call of it at an equal point returns the
same value, whatever happens in between. If it has a single gradient at a point, it returns the same
gradient too. What is known is returned without a declaration. -/
theorem Session.Evaluates.agrees (h : s.Evaluates f x v s₁) (between : List (Call α))
    (hEqual : (x == x') = true) :
    (value f x').Answers (s₁.run between) v ∧
      (∀ g v' s₂, oracle f x' (s₁.run between) = .ok (g, v') s₂ → v' = v) ∧
      ((s₁.run between).SingleValued f →
        ∃ g, (oracle f x').Answers (s₁.run between) (g, v) ∧
          ∀ g', oracle f x s = .ok (g', v) s₁ → g' = g) := by
  have hx : (x == x) = true := BEq.trans hEqual (BEq.symm hEqual)
  have hx' : (x' == x') = true := BEq.trans (BEq.symm hEqual) hEqual
  have hGrow : s₁.Precedes (s₁.run between) := precedes_run s₁ between
  obtain ⟨hBelow, g, hKnown⟩ := h.known hx
  have hBelow' : x'.Below (s₁.run between).basis.size := by
    intro term hTerm
    obtain ⟨other, hOther, hKey⟩ := Point.exists_key_of_beq hEqual hTerm
    exact hKey ▸ (hBelow other hOther).trans_le hGrow.size_le
  have hLater : (s₁.run between).known? x' f = some (g, v) :=
    known?_of_precedes hGrow hEqual hKnown
  refine ⟨?_, ?_, fun hSingle => ⟨g, ?_, ?_⟩⟩
  · exact answers_declaring (checkPoint_bind_eq_ok_iff.mpr ⟨hBelow', evalValue_of_known hLater⟩)
  · intro g' v' s₂ hOracle
    obtain ⟨-, g₂, hAgain, -⟩ := known_of_oracle hx' hOracle
    have hAfter : (s₁.run between).Precedes s₂ :=
      (within_oracle admits_precedes f x').of_eq_ok hOracle
    have hStill := known?_of_precedes hAfter hx' hLater
    rw [hAgain] at hStill
    exact congrArg Prod.snd (Option.some.inj hStill)
  · exact answers_declaring
      (checkPoint_bind_eq_ok_iff.mpr ⟨hBelow', evalOracle_of_known hSingle hLater⟩)
  · intro g' hOracle
    obtain ⟨-, g₁, hFirst, hSame⟩ := known_of_oracle hx hOracle
    rw [← hSame (hSingle.of_precedes hGrow)]
    rw [hKnown] at hFirst
    exact (congrArg Prod.fst (Option.some.inj hFirst)).symm

end Agreement

section Example

open PerformanceEstimation.Action

/-- One starting point and one smooth function, not evaluated yet. -/
noncomputable def untouched : Session ℝ where
  parameters := onePoint
  basis := ⟨2, [.initialPoint]⟩
  valueCount := 0
  functions := [.leaf (.smooth 1) []]
  declared := ∅
  metric := none
  status := .unsolved
  failure := none
  poisoned := false

omit [Scalar α] in
theorem Session.singleValued_of_leaf {s : Session α} {f : FunctionId} {cls : FunctionClass α}
    {triples : List (Triple α)} (hLeaf : s.functions[f.pos]? = some (.leaf cls triples))
    (hSingle : cls.singleValued = true) : s.SingleValued f := by
  intro g cls' triples' hReaches hLeaf'
  cases hReaches with
  | refl =>
    cases hLeaf.symm.trans hLeaf'
    exact hSingle
  | term hSum => cases hLeaf.symm.trans hSum

theorem Session.Evaluates.agrees_untouched : ∃ s₁,
    untouched.Evaluates ⟨0⟩ (.ofBasis ⟨0⟩) (.ofValue ⟨0⟩) s₁ ∧
      ((.ofBasis ⟨0⟩ : Point ℝ) == .ofBasis ⟨0⟩) = true ∧
      (value ⟨0⟩ (.ofBasis ⟨0⟩)).Answers (s₁.run [.newValue, .initialPoint]) (.ofValue ⟨0⟩) ∧
      ∃ g, (oracle ⟨0⟩ (.ofBasis ⟨0⟩)).Answers (s₁.run [.newValue, .initialPoint])
        (g, .ofValue ⟨0⟩) := by
  obtain ⟨s', hEval, triples, hLeaf⟩ : ∃ s', evalOracle (.ofBasis ⟨0⟩) ⟨0⟩ untouched =
      .ok (.ofBasis ⟨1⟩, .ofValue ⟨0⟩) s' ∧
        ∃ triples, s'.functions[0]? = some (.leaf (.smooth 1) triples) := by
    rw [evalOracle]
    exact ⟨_, rfl, _, rfl⟩
  have hBelow : (Point.ofBasis ⟨0⟩ : Point ℝ).Below untouched.basis.size :=
    Point.below_ofBasis Nat.one_pos
  have hOracle : oracle ⟨0⟩ (.ofBasis ⟨0⟩) untouched =
      .ok (.ofBasis ⟨1⟩, .ofValue ⟨0⟩) s'.touch :=
    declaring_eq_ok_iff.mpr ⟨rfl, s', checkPoint_bind_eq_ok_iff.mpr ⟨hBelow, hEval⟩, rfl⟩
  have hEvaluates : untouched.Evaluates ⟨0⟩ (.ofBasis ⟨0⟩) (.ofValue ⟨0⟩) s'.touch :=
    .inr ⟨_, hOracle⟩
  have hEqual : ((.ofBasis ⟨0⟩ : Point ℝ) == .ofBasis ⟨0⟩) = true :=
    beq_self_eq_true (Point.ofBasis ⟨0⟩ : Point ℝ).terms
  obtain ⟨hValue, -, hSingle⟩ := hEvaluates.agrees [.newValue, .initialPoint] hEqual
  obtain ⟨triples', hLater, -⟩ :=
    (precedes_run s'.touch [.newValue, .initialPoint]).leaf (f := 0) hLeaf
  obtain ⟨g, hGradient, -⟩ := hSingle (singleValued_of_leaf hLater rfl)
  exact ⟨s'.touch, hEvaluates, hEqual, hValue, g, hGradient⟩

end Example

end PerformanceEstimation
