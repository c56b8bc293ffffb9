import Mathlib
import PerformanceEstimation.Proofs.Session.Leaves

/-!
# The recursion through sums

An evaluation of a sum follows the terms that were stored with it. `Evaluator.follow` does so
without a look at their order, to any given depth: on a sum that is its own term no depth would do
(`Action.follow_of_selfTerm`).
In every session that is reached from a new one the terms of a sum come before it, whatever terms
were offered. Hence being a term of is well founded there, the recursion ends as the evaluation that
compares positions does, and neither an evaluation nor a stationary point runs into a sum where it
expects a leaf (`grounded_run`).
-/

set_option autoImplicit false

namespace PerformanceEstimation

open Session

variable {α β γ : Type}

def FunctionBody.terms? : FunctionBody α → Option (List (FunctionId × α))
  | .leaf .. => none
  | .sum terms => some terms

theorem FunctionBody.terms?_eq_some_iff {body : FunctionBody α} {terms : List (FunctionId × α)} :
    body.terms? = some terms ↔ body = .sum terms := by
  cases body <;> simp [terms?]

theorem FunctionBody.terms?_eq_none_iff {body : FunctionBody α} :
    body.terms? = none ↔ ∃ cls triples, body = .leaf cls triples := by
  cases body <;> simp [terms?]

namespace Session

/-- The first function is a term of the second one. -/
def IsTermOf (s : Session α) (t f : FunctionId) : Prop :=
  ∃ terms, s.functions[f.pos]? = some (.sum terms) ∧ ∃ w, (t, w) ∈ terms

def Descends (s : Session α) : Prop :=
  ∀ t f, s.IsTermOf t f → t.pos < f.pos

/-- The functions are the same but for the triples, and there is room for as many basis vectors. -/
structure SameSums (s s' : Session α) : Prop where
  terms : s'.functions.map FunctionBody.terms? = s.functions.map FunctionBody.terms?
  capacity : s'.basis.capacity = s.basis.capacity

/-- The error says that the basis is full. -/
def Full (s : Session α) (e : SessionError α) : Prop :=
  e = .construction (.basisCapacity s.basis.capacity)

variable {s t u : Session α} {f g : FunctionId}

theorem sum_iff_terms {terms : List (FunctionId × α)} : s.functions[f.pos]? = some (.sum terms) ↔
    (s.functions.map FunctionBody.terms?)[f.pos]? = some (some terms) := by
  rw [List.getElem?_map, Option.map_eq_some_iff]
  simp only [FunctionBody.terms?_eq_some_iff, exists_eq_right]

theorem isLeaf_iff_terms : s.IsLeaf f ↔
    (s.functions.map FunctionBody.terms?)[f.pos]? = some none := by
  rw [List.getElem?_map, Option.map_eq_some_iff, IsLeaf]
  simp only [FunctionBody.terms?_eq_none_iff]
  constructor
  · rintro ⟨cls, triples, hLeaf⟩
    exact ⟨_, hLeaf, cls, triples, rfl⟩
  · rintro ⟨_, hBody, cls, triples, rfl⟩
    exact ⟨cls, triples, hBody⟩

theorem WellFormed.descends [Scalar α] (hs : s.WellFormed) : s.Descends := by
  rintro t f ⟨terms, hSum, w, hTerm⟩
  exact ((hs.sums hSum).2 (t, w) hTerm).1

namespace SameSums

theorem refl (s : Session α) : s.SameSums s :=
  ⟨rfl, rfl⟩

theorem trans (h : s.SameSums t) (h' : t.SameSums u) : s.SameSums u :=
  ⟨h'.terms.trans h.terms, h'.capacity.trans h.capacity⟩

theorem set {cls : FunctionClass α} {triples triples' : List (Triple α)}
    (hLeaf : s.functions[f.pos]? = some (.leaf cls triples)) :
    s.SameSums { s with functions := s.functions.set f.pos (.leaf cls triples') } where
  terms := by
    have hBound := (List.getElem?_eq_some_iff.mp hLeaf).1
    refine List.ext_getElem? fun g => ?_
    rw [List.getElem?_map, List.getElem?_map]
    by_cases hSame : f.pos = g
    · rw [← hSame, List.getElem?_set_self hBound, hLeaf]
      rfl
    · rw [List.getElem?_set_ne hSame]
  capacity := rfl

theorem isTermOf_eq (h : s.SameSums t) : t.IsTermOf = s.IsTermOf := by
  funext g f
  simp only [IsTermOf, sum_iff_terms, h.terms]

theorem isLeaf_iff (h : s.SameSums t) : t.IsLeaf f ↔ s.IsLeaf f := by
  rw [isLeaf_iff_terms, isLeaf_iff_terms, h.terms]

theorem full_eq (h : s.SameSums t) : t.Full = s.Full := by
  funext e
  rw [Full, Full, h.capacity]

theorem length_eq (h : s.SameSums t) : t.functions.length = s.functions.length := by
  simpa using congrArg List.length h.terms

theorem descends (h : s.SameSums t) (hs : s.Descends) : t.Descends :=
  fun g f hTerm => hs g f (h.isTermOf_eq ▸ hTerm)

end SameSums

theorem IsTermOf.lt_length (h : s.IsTermOf g f) : f.pos < s.functions.length := by
  obtain ⟨terms, hSum, -⟩ := h
  exact (List.getElem?_eq_some_iff.mp hSum).1

theorem Descends.lt_of_transGen (hs : s.Descends) (h : Relation.TransGen s.IsTermOf g f) :
    g.pos < f.pos ∧ f.pos < s.functions.length := by
  induction h with
  | single hTerm => exact ⟨hs _ _ hTerm, hTerm.lt_length⟩
  | tail _ hTerm ih => exact ⟨ih.1.trans (hs _ _ hTerm), hTerm.lt_length⟩

theorem Descends.wellFounded (hs : s.Descends) : WellFounded s.IsTermOf :=
  Subrelation.wf (hs _ _) (InvImage.wf FunctionId.pos Nat.lt_wfRel.wf)

/-- Why a function is not evaluated. -/
inductive Refuses (s : Session α) (f : FunctionId) : SessionError α → Prop
  | undeclared (h : s.functions.length ≤ f.pos) :
    Refuses s f (.construction (.unknownFunction f s.functions.length))
  | full {e : SessionError α} (h : s.Full e) : Refuses s f e

/-- Why a function is not given a stationary point. -/
inductive RefusesStationary [Scalar α] (s : Session α) (f : FunctionId) : SessionError α → Prop
  | poisoned (h : s.poisoned = true) : RefusesStationary s f (.construction .poisoned)
  | unevaluated {e : SessionError α} (h : s.Refuses f e) : RefusesStationary s f e
  | termNotLeaf {t : FunctionId} (hTerm : s.IsTermOf t f) (hSum : ¬ s.IsLeaf t) :
    RefusesStationary s f (.construction (.invalidComposite f .termNotLeaf))
  | lastWeightZero {terms : List (FunctionId × α)} {last : FunctionId × α}
    (hSum : s.functions[f.pos]? = some (.sum terms)) (hLast : last ∈ terms.getLast?)
    (hZero : Scalar.isZero last.2 = true) :
    RefusesStationary s f (.construction (.invalidComposite f .lastWeightZero))

end Session

/-- A computation on a session that may not come to an end. It lists the functions for which it is
called. -/
abbrev Walk (α β : Type) : Type :=
  ExceptT (SessionError α) (StateT (List FunctionId × Session α) Option) β

namespace Walk

/-- What an action leaves behind after calls for the given functions. -/
def outcome (calls : List FunctionId) : EStateM.Result (SessionError α) (Session α) β →
    Except (SessionError α) β × List FunctionId × Session α
  | .ok b s => (.ok b, calls, s)
  | .error e s => (.error e, calls, s)

def lift (act : Action α β) : Walk α β :=
  fun (calls, s) => some (outcome calls (act s))

def call (f : FunctionId) : Walk α Unit :=
  modify fun (calls, s) => (calls ++ [f], s)

theorem bind_eq (walk : Walk α β) (next : β → Walk α γ) (calls : List FunctionId)
    (s : Session α) : (walk >>= next) (calls, s) = (walk (calls, s)).bind fun
      | (.ok b, calls', s') => next b (calls', s')
      | (.error e, calls', s') => some (.error e, calls', s') := by
  change (walk (calls, s)).bind _ = _
  congr 1
  funext ⟨result, calls', s'⟩
  cases result with
  | ok b => rfl
  | error e => rfl

end Walk

/-- What an evaluation returns for a leaf, and how it adds up a sum. -/
structure Evaluator (α γ : Type) where
  leaf : FunctionId → FunctionClass α → List (Triple α) → Action α γ
  start : γ
  add : γ → α → γ → γ

/-- The recursion along the stored terms, in whatever order they stand. It does not come to an end
if it is deeper than the given depth. -/
def Evaluator.follow (E : Evaluator α γ) : ℕ → FunctionId → Walk α γ
  | 0, _ => fun _ => none
  | depth + 1, f => do
    Walk.call f
    match ← Walk.lift (Action.lookup f) with
    | .leaf cls triples => Walk.lift (E.leaf f cls triples)
    | .sum terms => terms.foldlM (fun c (t, w) => return E.add c w (← E.follow depth t)) E.start

namespace Action

/-- The action fails only with such an error, and leaves the sums as they are. -/
def Confined (F : SessionError α → Prop) (act : Action α β) (s : Session α) : Prop :=
  match act s with
  | .ok _ s' => s.SameSums s'
  | .error e s' => F e ∧ s.SameSums s'

/-- From some depth on the walk ends as the action does, which is confined, and is called only for
such functions. -/
def Ends (P : FunctionId → Prop) (F : SessionError α → Prop) (depth : ℕ) (walk : ℕ → Walk α β)
    (act : Action α β) (s : Session α) : Prop :=
  Confined F act s ∧ ∃ visited, (∀ g ∈ visited, P g) ∧
    ∀ n, depth ≤ n → ∀ calls, walk n (calls, s) = some (Walk.outcome (calls ++ visited) (act s))

section Rules

variable {F G : SessionError α → Prop} {P : FunctionId → Prop} {depth : ℕ} {s : Session α}
  {act : Action α β}

theorem confined_pure (b : β) : Confined F (pure b) s :=
  .refl s

theorem confined_fail {e : ConstructionError} (h : F (.construction e)) :
    Confined F (fail e : Action α β) s :=
  ⟨h, .refl s⟩

theorem Confined.of_eq_ok (h : Confined F act s) {b : β} {s' : Session α}
    (hResult : act s = .ok b s') : s.SameSums s' := by
  rwa [Confined, hResult] at h

theorem Confined.of_eq_error (h : Confined F act s) {e : SessionError α} {s' : Session α}
    (hResult : act s = .error e s') : F e := by
  rw [Confined, hResult] at h
  exact h.1

theorem Confined.congr {act' : Action α β} (h : Confined F act s) (hSame : act' s = act s) :
    Confined F act' s := by
  rwa [Confined, hSame]

theorem Confined.mono (h : Confined F act s) (hFG : ∀ e, F e → G e) : Confined G act s := by
  unfold Confined at h ⊢
  cases hResult : act s with
  | ok b s' => rwa [hResult] at h
  | error e s' =>
    rw [hResult] at h
    exact ⟨hFG e h.1, h.2⟩

theorem Confined.bind {next : β → Action α γ} (h : Confined F act s)
    (hNext : ∀ b s', act s = .ok b s' → s.SameSums s' → Confined F (next b) s') :
    Confined F (act >>= next) s := by
  unfold Confined at h ⊢
  simp only [Bind.bind, EStateM.bind]
  cases hResult : act s with
  | error e s' =>
    rw [hResult] at h
    exact h
  | ok b s' =>
    rw [hResult] at h
    have hRest := hNext b s' hResult h
    unfold Confined at hRest
    dsimp only
    cases hLast : next b s' with
    | ok c s'' =>
      rw [hLast] at hRest
      exact SameSums.trans h hRest
    | error e s'' =>
      rw [hLast] at hRest
      exact ⟨hRest.1, SameSums.trans h hRest.2⟩

theorem Confined.forM {act : β → Action α PUnit} {bs : List β}
    (h : ∀ b ∈ bs, ∀ s', s.SameSums s' → Confined F (act b) s') {s' : Session α}
    (hSame : s.SameSums s') : Confined F (bs.forM act) s' := by
  induction bs generalizing s' with
  | nil => exact confined_pure _
  | cons b bs ih =>
    refine (h b List.mem_cons_self s' hSame).bind fun _ s₁ _ hFirst => ?_
    exact ih (fun b hb => h b (List.mem_cons_of_mem _ hb)) (hSame.trans hFirst)

theorem Confined.foldlM {act : γ → β → Action α γ} {bs : List β}
    (h : ∀ c, ∀ b ∈ bs, ∀ s', s.SameSums s' → Confined F (act c b) s') (c : γ) {s' : Session α}
    (hSame : s.SameSums s') : Confined F (bs.foldlM act c) s' := by
  induction bs generalizing c s' with
  | nil => exact confined_pure _
  | cons b bs ih =>
    refine (h c b List.mem_cons_self s' hSame).bind fun c' s₁ _ hFirst => ?_
    exact ih (fun c b hb => h c b (List.mem_cons_of_mem _ hb)) c' (hSame.trans hFirst)

theorem ends_pure (b : β) : Ends P F depth (fun _ => pure b) (pure b) s :=
  ⟨confined_pure b, [], by simp, fun n hDepth calls => by rw [List.append_nil]; rfl⟩

theorem Ends.bind {walk : ℕ → Walk α β} {walkNext : ℕ → β → Walk α γ} {next : β → Action α γ}
    (h : Ends P F depth walk act s)
    (hNext : ∀ b s', act s = .ok b s' → s.SameSums s' →
      Ends P F depth (fun n => walkNext n b) (next b) s') :
    Ends P F depth (fun n => walk n >>= walkNext n) (act >>= next) s := by
  obtain ⟨hConfined, visited, hVisited, hWalk⟩ := h
  refine ⟨hConfined.bind fun b s' hOk hSame => (hNext b s' hOk hSame).1, ?_⟩
  cases hResult : act s with
  | error e s' =>
    refine ⟨visited, hVisited, fun n hDepth calls => ?_⟩
    beta_reduce
    rw [Walk.bind_eq, hWalk n hDepth, hResult]
    simp only [Bind.bind, EStateM.bind, hResult]
    rfl
  | ok b s' =>
    obtain ⟨-, more, hMore, hRest⟩ := hNext b s' hResult (hConfined.of_eq_ok hResult)
    refine ⟨visited ++ more, List.forall_mem_append.mpr ⟨hVisited, hMore⟩,
      fun n hDepth calls => ?_⟩
    beta_reduce
    rw [Walk.bind_eq, hWalk n hDepth, hResult]
    simp only [Bind.bind, EStateM.bind, hResult]
    rw [← List.append_assoc]
    exact hRest n hDepth (calls ++ visited)

end Rules

section Guarded

/-- One step of a sum, made only if the term comes before the sum. -/
def guardedStep (E : Evaluator α γ) (act : FunctionId → Action α γ) (f : FunctionId) (c : γ)
    (term : FunctionId × α) : Action α γ :=
  if term.1.pos < f.pos then do return E.add c term.2 (← act term.1)
  else fail (.unknownFunction term.1 f.pos)

/-- The evaluation is the recursion, but compares the position of each term with that of the sum. -/
structure Guards (act : FunctionId → Action α γ) (E : Evaluator α γ) : Prop where
  undeclared : ∀ {s : Session α} {f : FunctionId}, s.functions[f.pos]? = none →
    act f s = .error (.construction (.unknownFunction f s.functions.length)) s
  leaf : ∀ {s : Session α} {f : FunctionId} {cls : FunctionClass α} {triples : List (Triple α)},
    s.functions[f.pos]? = some (.leaf cls triples) →
      act f s = E.leaf f cls triples s ∧ Confined s.Full (E.leaf f cls triples) s
  sum : ∀ {s : Session α} {f : FunctionId} {terms : List (FunctionId × α)},
    s.functions[f.pos]? = some (.sum terms) →
      act f s = terms.foldlM (guardedStep E act f) E.start s

variable {E : Evaluator α γ} {act : FunctionId → Action α γ} {s : Session α} {f : FunctionId}
  {P : FunctionId → Prop} {F : SessionError α → Prop} {depth : ℕ}

theorem follow_succ (depth : ℕ) (f : FunctionId) (s : Session α) (calls : List FunctionId) :
    E.follow (depth + 1) f (calls, s) = (Walk.lift (lookup f) >>= fun
      | .leaf cls triples => Walk.lift (E.leaf f cls triples)
      | .sum terms =>
        terms.foldlM (fun c (t, w) => return E.add c w (← E.follow depth t)) E.start :
        Walk α γ) (calls ++ [f], s) := by
  rw [Evaluator.follow, Walk.bind_eq]
  rfl

theorem follow_of_none (h : s.functions[f.pos]? = none) (calls : List FunctionId) :
    E.follow (depth + 1) f (calls, s) =
      some (.error (.construction (.unknownFunction f s.functions.length)), calls ++ [f], s) := by
  rw [follow_succ, Walk.bind_eq, Walk.lift, lookup_eq, h]
  rfl

theorem follow_of_leaf {cls : FunctionClass α} {triples : List (Triple α)}
    (h : s.functions[f.pos]? = some (.leaf cls triples)) (calls : List FunctionId) :
    E.follow (depth + 1) f (calls, s) =
      some (Walk.outcome (calls ++ [f]) (E.leaf f cls triples s)) := by
  rw [follow_succ, Walk.bind_eq, Walk.lift, lookup_eq, h]
  rfl

theorem follow_of_sum {terms : List (FunctionId × α)}
    (h : s.functions[f.pos]? = some (.sum terms)) (calls : List FunctionId) :
    E.follow (depth + 1) f (calls, s) =
      (terms.foldlM (fun c (t, w) => return E.add c w (← E.follow depth t)) E.start : Walk α γ)
        (calls ++ [f], s) := by
  rw [follow_succ, Walk.bind_eq, Walk.lift, lookup_eq, h]
  rfl

/-- Without the order of the terms the recursion need not end. -/
theorem follow_of_selfTerm {w : α} {terms : List (FunctionId × α)}
    (h : s.functions[f.pos]? = some (.sum ((f, w) :: terms))) (calls : List FunctionId) :
    E.follow depth f (calls, s) = none := by
  induction depth generalizing calls with
  | zero => rfl
  | succ depth ih =>
    have hFirst : (do return E.add E.start w (← E.follow depth f) : Walk α γ) (calls ++ [f], s) =
        none := by
      rw [Walk.bind_eq, ih]
      rfl
    rw [follow_of_sum h, List.foldlM_cons, Walk.bind_eq]
    exact Option.bind_eq_none_iff.mpr fun result hResult => nomatch hFirst.symm.trans hResult

theorem ends_terms (hTerm : ∀ t s', s.SameSums s' → s.IsTermOf t f →
      t.pos < f.pos ∧ Ends P F f.pos (E.follow · t) (act t) s')
    {terms : List (FunctionId × α)} (hTerms : ∀ t w, (t, w) ∈ terms → s.IsTermOf t f)
    {s' : Session α} (hSame : s.SameSums s') (c : γ) :
    Ends P F f.pos (fun n => terms.foldlM (fun c (t, w) => return E.add c w (← E.follow n t)) c)
      (terms.foldlM (guardedStep E act f) c) s' := by
  induction terms generalizing c s' with
  | nil => exact ends_pure c
  | cons term terms ih =>
    obtain ⟨t, w⟩ := term
    obtain ⟨hLess, hEnds⟩ := hTerm t s' hSame (hTerms t w List.mem_cons_self)
    simp only [List.foldlM_cons, guardedStep, if_pos hLess]
    refine (hEnds.bind fun r s₁ _ hFirst => ends_pure _).bind fun c' s₁ _ hFirst => ?_
    exact ih (fun t w hMem => hTerms t w (List.mem_cons_of_mem _ hMem)) (hSame.trans hFirst) c'

/-- In a session whose sums descend, the recursion for a function goes no deeper than its position,
ends as the evaluation does, and is called for the function and for terms of it. -/
theorem Guards.ends (hAct : Guards act E) (hs : s.Descends) (hf : f.pos < s.functions.length) :
    Confined s.Full (act f) s ∧ ∃ visited, (∀ g ∈ visited, Relation.TransGen s.IsTermOf g f) ∧
      ∀ depth, f.pos < depth → ∀ calls, E.follow depth f (calls, s) =
        some (Walk.outcome (calls ++ f :: visited) (act f s)) := by
  induction hPos : f.pos using Nat.strongRecOn generalizing f s with
  | ind pos ih =>
    cases hBody : s.functions[f.pos]? with
    | none =>
      rw [List.getElem?_eq_none_iff] at hBody
      omega
    | some body =>
      cases body with
      | leaf cls triples =>
        obtain ⟨hLeaf, hConfined⟩ := hAct.leaf hBody
        refine ⟨hConfined.congr hLeaf, [], by simp, fun depth hDepth calls => ?_⟩
        obtain ⟨depth, rfl⟩ := Nat.exists_eq_succ_of_ne_zero (Nat.ne_zero_of_lt hDepth)
        rw [follow_of_leaf hBody, hLeaf]
      | sum terms =>
        have hTerm (t : FunctionId) (s' : Session α) (hSame : s.SameSums s')
            (hTermOf : s.IsTermOf t f) : t.pos < f.pos ∧
              Ends (Relation.TransGen s.IsTermOf · f) s.Full f.pos (E.follow · t) (act t) s' := by
          have hLess := hs t f hTermOf
          obtain ⟨hConfined, visited, hVisited, hFollow⟩ := ih t.pos (hPos ▸ hLess)
            (hSame.descends hs) (hSame.length_eq ▸ hLess.trans hf) rfl
          rw [hSame.full_eq] at hConfined
          rw [hSame.isTermOf_eq] at hVisited
          refine ⟨hLess, hConfined, t :: visited, ?_, fun n hDepth => ?_⟩
          · exact List.forall_mem_cons.mpr
              ⟨.single hTermOf, fun g hg => (hVisited g hg).tail hTermOf⟩
          · exact hFollow n (hLess.trans_le hDepth)
        have hTerms (t : FunctionId) (w : α) (hMem : (t, w) ∈ terms) : s.IsTermOf t f :=
          ⟨terms, hBody, w, hMem⟩
        obtain ⟨hConfined, visited, hVisited, hFollow⟩ :=
          ends_terms hTerm hTerms (.refl s) E.start
        have hSum := hAct.sum hBody
        refine ⟨hConfined.congr hSum, visited, hVisited, fun depth hDepth calls => ?_⟩
        obtain ⟨depth, rfl⟩ := Nat.exists_eq_succ_of_ne_zero (Nat.ne_zero_of_lt hDepth)
        have hFold := hFollow depth (by omega) (calls ++ [f])
        rw [List.append_assoc, List.singleton_append] at hFold
        rw [follow_of_sum hBody, hSum]
        exact hFold

end Guarded

section Evaluations

variable [Scalar α] {F : SessionError α → Prop} {s : Session α} {f : FunctionId}

theorem confined_newBasis (origin : BasisOrigin) :
    Confined s.Full (newBasis origin : Action α (Point α)) s := by
  unfold Confined
  rw [newBasis_eq]
  cases hRoom : s.basis.register? origin with
  | none => exact ⟨rfl, .refl s⟩
  | some new =>
    obtain ⟨-, -, hBasis⟩ := Basis.eq_of_register? hRoom
    exact ⟨rfl, by simp only [hBasis]⟩

theorem confined_nextValue : Confined F (nextValue : Action α (Expression α)) s :=
  ⟨rfl, rfl⟩

omit [Scalar α] in
theorem confined_pushTriple (hLeaf : s.IsLeaf f) (t : Triple α) :
    Confined F (pushTriple f t) s := by
  obtain ⟨cls, triples, hBody⟩ := hLeaf
  unfold Confined
  rw [pushTriple_eq hBody]
  exact .set hBody

theorem confined_newTriple (hLeaf : s.IsLeaf f) (x : Point α) {value : Action α (Expression α)}
    (hValue : ∀ s', Confined s.Full value s') : Confined s.Full (newTriple f x value) s := by
  refine (confined_newBasis _).bind fun g s₁ _ hSame₁ => (hValue s₁).bind fun v s₂ _ hSame₂ => ?_
  have hLeaf₂ : s₂.IsLeaf f := (hSame₁.trans hSame₂).isLeaf_iff.mpr hLeaf
  exact (confined_pushTriple hLeaf₂ _).bind fun _ _ _ _ => confined_pure _

/-- The recursion of an oracle. -/
def oracleEvaluator (x : Point α) : Evaluator α (Point α × Expression α) where
  leaf f cls triples :=
    match triples.find? (·.point == x) with
    | some t =>
      if cls.singleValued then return (t.gradient, t.value) else newTriple f x (pure t.value)
    | none => newTriple f x nextValue
  start := (0, 0)
  add r w rt := (r.1.axpy w rt.1, r.2.axpy w rt.2)

def valueEvaluator (x : Point α) : Evaluator α (Expression α) where
  leaf f cls triples :=
    match triples.find? (·.point == x) with
    | some t => return t.value
    | none => return (← (oracleEvaluator x).leaf f cls triples).2
  start := 0
  add v w vt := v.axpy w vt

theorem confined_oracleEvaluator (hLeaf : s.IsLeaf f) (x : Point α) (cls : FunctionClass α)
    (triples : List (Triple α)) : Confined s.Full ((oracleEvaluator x).leaf f cls triples) s := by
  unfold oracleEvaluator
  dsimp only
  split
  · split
    · exact confined_pure _
    · exact confined_newTriple hLeaf x fun _ => confined_pure _
  · exact confined_newTriple hLeaf x fun _ => confined_nextValue

theorem guards_evalOracle (x : Point α) : Guards (evalOracle x) (oracleEvaluator x) where
  undeclared {s f} hNone := by rw [evalOracle, lookup_bind_of_none hNone]
  leaf {s f cls triples} hLeaf := by
    refine ⟨?_, confined_oracleEvaluator ⟨cls, triples, hLeaf⟩ x cls triples⟩
    rw [evalOracle, lookup_bind_of_some hLeaf]
    rfl
  sum {s f terms} hSum := by
    rw [evalOracle, lookup_bind_of_some hSum]
    rfl

theorem guards_evalValue (x : Point α) : Guards (evalValue x) (valueEvaluator x) where
  undeclared {s f} hNone := by rw [evalValue, lookup_bind_of_none hNone]
  leaf {s f cls triples} hLeaf := by
    refine ⟨?_, ?_⟩
    · rw [evalValue, lookup_bind_of_some hLeaf, valueEvaluator]
      dsimp only
      cases triples.find? (·.point == x) with
      | some first => rfl
      | none => simp only [Bind.bind, EStateM.bind, ((guards_evalOracle x).leaf hLeaf).1]
    · unfold valueEvaluator
      dsimp only
      split
      · exact confined_pure _
      · exact (confined_oracleEvaluator ⟨cls, triples, hLeaf⟩ x cls triples).bind fun _ _ _ _ =>
          confined_pure _
  sum {s f terms} hSum := by
    rw [evalValue, lookup_bind_of_some hSum]
    rfl

theorem confined_evalOracle (hs : s.Descends) (hf : f.pos < s.functions.length) (x : Point α) :
    Confined s.Full (evalOracle x f) s :=
  ((guards_evalOracle x).ends hs hf).1

theorem confined_leafStationaryPoint (hLeaf : s.IsLeaf f) :
    Confined s.Full (leafStationaryPoint f : Action α (Point α)) s := by
  refine (confined_newBasis _).bind fun x s₁ _ hSame₁ => ?_
  refine confined_nextValue.bind fun v s₂ _ hSame₂ => ?_
  have hLeaf₂ : s₂.IsLeaf f := (hSame₁.trans hSame₂).isLeaf_iff.mpr hLeaf
  exact (confined_pushTriple hLeaf₂ _).bind fun _ _ _ _ => confined_pure _

theorem confined_checkLeaf {t : FunctionId} (hTerm : s.IsTermOf t f)
    (ht : t.pos < s.functions.length) {s' : Session α} (hSame : s.SameSums s') :
    Confined (s.RefusesStationary f) (do
      match ← lookup t with
      | .leaf .. => return
      | .sum _ => fail (.invalidComposite f .termNotLeaf)) s' := by
  rw [← hSame.length_eq] at ht
  have hBody := List.getElem?_eq_getElem ht
  generalize s'.functions[t.pos] = body at hBody
  cases body with
  | leaf cls triples => exact (confined_pure _).congr (lookup_bind_of_some hBody _)
  | sum terms =>
    refine (confined_fail (.termNotLeaf hTerm fun hLeaf => ?_)).congr (lookup_bind_of_some hBody _)
    obtain ⟨cls, triples, hOther⟩ := hSame.isLeaf_iff.mpr hLeaf
    cases hBody.symm.trans hOther

theorem confined_sumStationaryPoint (hs : s.WellFormed) {terms : List (FunctionId × α)}
    (hSum : s.functions[f.pos]? = some (.sum terms)) :
    Confined (s.RefusesStationary f) (sumStationaryPoint f terms) s := by
  have hTermOf (term : FunctionId × α) (hTerm : term ∈ terms) : s.IsTermOf term.1 f :=
    ⟨terms, hSum, term.2, hTerm⟩
  have hDeclared (term : FunctionId × α) (hTerm : term ∈ terms) :
      term.1.pos < s.functions.length :=
    (hs.descends _ _ (hTermOf term hTerm)).trans (hTermOf term hTerm).lt_length
  refine (Confined.forM (fun term hTerm s' hSame => confined_checkLeaf (hTermOf term hTerm)
    (hDeclared term hTerm) hSame) (.refl s)).bind fun _ s' hOk _ => ?_
  have hChecked : Leads False (terms.forM _) s _ := leads_forM fun term => leads_checkLeaf f term
  obtain ⟨-, rfl, hLeaf⟩ := hChecked.of_eq_ok hOk
  cases hLast : terms.getLast? with
  | none => exact absurd (List.getLast?_eq_none_iff.mp hLast) (hs.sums hSum).1
  | some last =>
    dsimp only
    split
    · rename_i hZero
      exact (confined_fail (.lastWeightZero hSum hLast hZero)).bind fun _ _ hOk => nomatch hOk
    · refine ((confined_newBasis _).mono fun _ hFull => .unevaluated (.full hFull)).bind
        fun x s₁ _ hSame₁ => ?_
      refine (Confined.foldlM (fun g term hTerm s₂ hSame₂ => ?_) 0 hSame₁).bind
        fun rest s₂ _ hSame₂ => ?_
      · have hMem := List.mem_of_mem_dropLast hTerm
        have hEval := confined_evalOracle (hSame₂.descends hs.descends)
          (hSame₂.length_eq ▸ hDeclared term hMem) x
        rw [hSame₂.full_eq] at hEval
        exact (hEval.mono fun _ hFull => .unevaluated (.full hFull)).bind fun _ _ _ _ =>
          confined_pure _
      · refine confined_nextValue.bind fun v s₃ _ hSame₃ => ?_
        have hLeaf₃ : s₃.IsLeaf last.1 :=
          (hSame₁.trans (hSame₂.trans hSame₃)).isLeaf_iff.mpr
            (hLeaf last (List.mem_of_mem_getLast? hLast))
        exact (confined_pushTriple hLeaf₃ _).bind fun _ _ _ _ => confined_pure _

omit [Scalar α] in
theorem error_of_declaring {act : Action α β} {e : SessionError α} {s' : Session α}
    (h : declaring act s = .error e s') :
    s.poisoned = true ∧ e = .construction .poisoned ∨ ∃ s₁, act s = .error e s₁ := by
  rw [declaring_eq] at h
  split at h
  · rename_i hPoisoned
    cases h
    exact .inl ⟨hPoisoned, rfl⟩
  · cases hResult : act s with
    | ok b s₁ =>
      rw [hResult] at h
      cases h
    | error e' s₁ =>
      rw [hResult] at h
      cases h
      exact .inr ⟨s₁, rfl⟩

theorem refusesStationary_of_error (hs : s.WellFormed) {e : SessionError α} {s' : Session α}
    (h : stationaryPoint f s = .error e s') : s.RefusesStationary f e := by
  rcases error_of_declaring h with ⟨hPoisoned, rfl⟩ | ⟨s₁, hError⟩
  · exact .poisoned hPoisoned
  · cases hBody : s.functions[f.pos]? with
    | none =>
      rw [lookup_bind_of_none hBody] at hError
      cases hError
      exact .unevaluated (.undeclared (List.getElem?_eq_none_iff.mp hBody))
    | some body =>
      rw [lookup_bind_of_some hBody] at hError
      cases body with
      | leaf cls triples =>
        have hConfined := confined_leafStationaryPoint ⟨cls, triples, hBody⟩
        exact .unevaluated (.full (hConfined.of_eq_error hError))
      | sum terms => exact (confined_sumStationaryPoint hs hBody).of_eq_error hError

end Evaluations

end Action

section Sessions

variable [Scalar α]

/-- The recursion for the function is no deeper than the functions before it allow and ends as the
action does. It is called for the function and for declared terms of it. -/
def Evaluator.EndsAs (E : Evaluator α γ) (act : FunctionId → Action α γ) (f : FunctionId)
    (s : Session α) : Prop :=
  ∃ visited, (∀ g ∈ visited, Relation.TransGen s.IsTermOf g f ∧ g.pos < s.functions.length) ∧
    ∀ depth, f.pos < depth → ∀ calls,
      E.follow depth f (calls, s) = some (Walk.outcome (calls ++ f :: visited) (act f s))

variable {E : Evaluator α γ} {act : FunctionId → Action α γ} {s s' : Session α} {f : FunctionId}
  {e : SessionError α}

omit [Scalar α] in
theorem Action.Guards.endsAs (hAct : Guards act E) (hs : s.Descends) (f : FunctionId) :
    E.EndsAs act f s := by
  cases hBody : s.functions[f.pos]? with
  | none =>
    refine ⟨[], by simp, fun depth hDepth calls => ?_⟩
    obtain ⟨depth, rfl⟩ := Nat.exists_eq_succ_of_ne_zero (Nat.ne_zero_of_lt hDepth)
    rw [follow_of_none hBody, hAct.undeclared hBody]
    rfl
  | some body =>
    have hf := (List.getElem?_eq_some_iff.mp hBody).1
    obtain ⟨-, visited, hVisited, hFollow⟩ := hAct.ends hs hf
    refine ⟨visited, fun g hg => ⟨hVisited g hg, ?_⟩, hFollow⟩
    exact (hs.lt_of_transGen (hVisited g hg)).1.trans hf

omit [Scalar α] in
theorem Action.Guards.refuses_of_error (hAct : Guards act E) (hs : s.Descends)
    (h : act f s = .error e s') : s.Refuses f e := by
  cases hBody : s.functions[f.pos]? with
  | none =>
    rw [hAct.undeclared hBody] at h
    cases h
    exact .undeclared (List.getElem?_eq_none_iff.mp hBody)
  | some body =>
    have hf := (List.getElem?_eq_some_iff.mp hBody).1
    exact .full ((hAct.ends hs hf).1.of_eq_error h)

omit [Scalar α] in
theorem Session.Refuses.ne_invalidComposite (h : s.Refuses f e) (g : FunctionId)
    (fault : CompositeFault) : e ≠ .construction (.invalidComposite g fault) := by
  cases h with
  | undeclared => simp
  | full hFull =>
    intro hComposite
    cases hFull.symm.trans hComposite

theorem Session.RefusesStationary.ne_invalidComposite (h : s.RefusesStationary f e)
    (g : FunctionId) : e ≠ .construction (.invalidComposite g .triplesOnSum) ∧
      e ≠ .construction (.invalidComposite g .noTerms) := by
  cases h with
  | unevaluated h => exact ⟨h.ne_invalidComposite g _, h.ne_invalidComposite g _⟩
  | poisoned | termNotLeaf | lastWeightZero => simp

/-- The terms of every sum come before it, so that an evaluation ends and finds triples at leaves
only. -/
structure Session.Grounded (s : Session α) : Prop where
  wellFounded : WellFounded s.IsTermOf
  descends : ∀ {t f}, s.IsTermOf t f → t.pos < f.pos ∧ f.pos < s.functions.length
  oracle : ∀ x f, (Action.oracleEvaluator x).EndsAs (Action.evalOracle x) f s
  value : ∀ x f, (Action.valueEvaluator x).EndsAs (Action.evalValue x) f s
  oracle_error : ∀ {x f e s'}, Action.evalOracle x f s = .error e s' →
    s.Refuses f e ∧ ∀ g fault, e ≠ .construction (.invalidComposite g fault)
  value_error : ∀ {x f e s'}, Action.evalValue x f s = .error e s' →
    s.Refuses f e ∧ ∀ g fault, e ≠ .construction (.invalidComposite g fault)
  stationary_error : ∀ {f e s'}, Action.stationaryPoint f s = .error e s' →
    s.RefusesStationary f e ∧ ∀ g, e ≠ .construction (.invalidComposite g .triplesOnSum) ∧
      e ≠ .construction (.invalidComposite g .noTerms)

theorem Session.WellFormed.grounded (hs : s.WellFormed) : s.Grounded where
  wellFounded := hs.descends.wellFounded
  descends hTerm := ⟨hs.descends _ _ hTerm, hTerm.lt_length⟩
  oracle x f := (Action.guards_evalOracle x).endsAs hs.descends f
  value x f := (Action.guards_evalValue x).endsAs hs.descends f
  oracle_error {x f e s'} h := by
    have hRefuses := (Action.guards_evalOracle x).refuses_of_error hs.descends h
    exact ⟨hRefuses, hRefuses.ne_invalidComposite⟩
  value_error {x f e s'} h := by
    have hRefuses := (Action.guards_evalValue x).refuses_of_error hs.descends h
    exact ⟨hRefuses, hRefuses.ne_invalidComposite⟩
  stationary_error {f e s'} h := by
    have hRefuses := Action.refusesStationary_of_error hs h
    exact ⟨hRefuses, hRefuses.ne_invalidComposite⟩

/-- Whatever calls led to the session, and whatever functions they named. -/
theorem grounded_run (par : Parameters α) (calls : List (Call α)) :
    ((new par).run calls).Grounded :=
  ((wellFormed_new par).run calls).grounded

end Sessions

end PerformanceEstimation
