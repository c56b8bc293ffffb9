import Mathlib
import PerformanceEstimation.Proofs.Algebra.Sums
import PerformanceEstimation.Proofs.Session.Discipline
import PerformanceEstimation.Proofs.Session.Paths
import PerformanceEstimation.Proofs.Session.Values

/-!
# Nested sums

An oracle of nested sums evaluates the leaves at the ends of its paths, one after the other, and
returns their path-weighted sum (`exists_evaluatesAll_of_evalOracle`). The value at a leaf is that
of its first triple at the point, whichever path leads there; the gradient is that of the first
triple if the class has only one, and otherwise a new basis vector each time. Hence a nested sum
evaluates as its flattening (`oracle_flattens`).
-/

set_option autoImplicit false

namespace PerformanceEstimation

open Session

section Occurrences

variable {α : Type} [Scalar α]

def Session.IsSeveral (s : Session α) (f : FunctionId) : Prop :=
  ∃ cls triples, s.functions[f.pos]? = some (.leaf cls triples) ∧ cls.singleValued = false

/-- What the evaluation of a leaf at a point has to do with the triples there: the value is that of
the first one, and so is the gradient if the class has only one. Otherwise the gradient is a basis
vector, not older than the given position. -/
structure Session.Supplies (s : Session α) (x : Point α) (f : FunctionId) (n : ℕ)
    (r : Point α × Expression α) (cls : FunctionClass α) (triples : List (Triple α))
    (first : Triple α) : Prop where
  leaf : s.functions[f.pos]? = some (.leaf cls triples)
  find : triples.find? (·.point == x) = some first
  value : r.2 = first.value
  gradient : ∃ t ∈ triples, (t.point == x) = true ∧ t.gradient = r.1
  single : cls.singleValued = true → r.1 = first.gradient
  several : cls.singleValued = false → ∃ i, r.1 = .ofBasis ⟨i⟩ ∧ n ≤ i ∧ i < s.basis.size

namespace Session.Supplies

variable {s s' : Session α} {x : Point α} {f : FunctionId} {n m : ℕ} {r : Point α × Expression α}
  {cls : FunctionClass α} {triples : List (Triple α)} {first : Triple α}

theorem of_precedes (h : s.Supplies x f n r cls triples first) (hPrecedes : s.Precedes s') :
    ∃ triples', s'.Supplies x f n r cls triples' first := by
  obtain ⟨triples', hLeaf, hPrefix⟩ := hPrecedes.leaf h.leaf
  obtain ⟨t, hMem, hPoint, hGradient⟩ := h.gradient
  refine ⟨triples', hLeaf, hPrefix.find?_eq_some h.find, h.value,
    ⟨t, hPrefix.subset hMem, hPoint, hGradient⟩, h.single, fun hSeveral => ?_⟩
  obtain ⟨i, hi, hOld, hNew⟩ := h.several hSeveral
  exact ⟨i, hi, hOld, hNew.trans_le hPrecedes.size_le⟩

theorem mono (h : s.Supplies x f n r cls triples first) (hLess : m ≤ n) :
    s.Supplies x f m r cls triples first := by
  refine { h with several := fun hSeveral => ?_ }
  obtain ⟨i, hi, hOld, hNew⟩ := h.several hSeveral
  exact ⟨i, hi, hLess.trans hOld, hNew⟩

end Session.Supplies

namespace Action

variable {x : Point α} {s s' : Session α} {f : FunctionId} {r : Point α × Expression α}
  {fs : List FunctionId} {rs : List (Point α × Expression α)}

theorem exists_supplies_of_evalOracle (hx : (x == x) = true) (hLeaf : s.IsLeaf f)
    (h : evalOracle x f s = .ok r s') :
    ∃ cls triples first, s'.Supplies x f s.basis.size r cls triples first := by
  obtain ⟨cls, triples, hBody⟩ := hLeaf
  have hSet (new : FunctionBody α) : (s.functions.set f.pos new)[f.pos]? = some new :=
    List.getElem?_set_self (List.getElem?_eq_some_iff.mp hBody).1
  have hEvaluates := evaluatesLeaf (x := x) hBody
  rw [h] at hEvaluates
  cases hEvaluates with
  | @known first hFirst hSingle =>
    refine ⟨cls, triples, first, hBody, hFirst, rfl, ⟨first, List.mem_of_find?_eq_some hFirst, ?_,
      rfl⟩, fun _ => rfl, fun hSeveral => ?_⟩
    · simpa using List.find?_some hFirst
    · rw [hSingle] at hSeveral
      cases hSeveral
  | @again first i basis hFirst hSeveral hRoom =>
    have hSize := Basis.size_of_register? hRoom
    obtain ⟨rfl, -, -⟩ := Basis.eq_of_register? hRoom
    refine ⟨cls, _, first, hSet _, by rw [List.find?_append, hFirst]; rfl, rfl,
      ⟨_, List.mem_append_right _ (List.mem_singleton_self _), hx, rfl⟩, fun hSingle => ?_,
      fun _ => ⟨_, rfl, le_rfl, ?_⟩⟩
    · rw [hSeveral] at hSingle
      cases hSingle
    · simp only [hSize]
      omega
  | @new i basis hNone hRoom =>
    have hSize := Basis.size_of_register? hRoom
    obtain ⟨rfl, -, -⟩ := Basis.eq_of_register? hRoom
    refine ⟨cls, _, _, hSet _, by rw [List.find?_append, hNone, Option.none_or,
      List.find?_singleton, if_pos hx], rfl,
      ⟨_, List.mem_append_right _ (List.mem_singleton_self _), hx, rfl⟩, fun _ => rfl,
      fun _ => ⟨_, rfl, le_rfl, ?_⟩⟩
    simp only [hSize]
    omega

namespace EvaluatesAll

theorem exists_supplies (hx : (x == x) = true) (h : EvaluatesAll x fs s rs s')
    (hLeaf : ∀ f ∈ fs, s.IsLeaf f) : ∀ pair ∈ fs.zip rs,
      ∃ cls triples first, s'.Supplies x pair.1 s.basis.size pair.2 cls triples first := by
  induction h with
  | nil s => exact fun pair hNone => nomatch hNone
  | @cons f fs s s₁ s' r rs hFirst hRest ih =>
    obtain ⟨hHead, hTail⟩ := List.forall_mem_cons.mp hLeaf
    have hGrows := growsAt_evalOracle hHead hFirst
    have hSize : s.basis.size ≤ s₁.basis.size :=
      ((within_evalOracle admits_precedes x f).of_eq_ok hFirst).size_le
    rw [List.zip_cons_cons, List.forall_mem_cons]
    constructor
    · obtain ⟨cls, triples, first, hSupplies⟩ := exists_supplies_of_evalOracle hx hHead hFirst
      obtain ⟨triples', hLater⟩ := hSupplies.of_precedes hRest.precedes
      exact ⟨cls, triples', first, hLater⟩
    · intro pair hPair
      obtain ⟨cls, triples, first, hSupplies⟩ :=
        ih (fun f hf => hGrows.isLeaf (hTail f hf)) pair hPair
      exact ⟨cls, triples, first, hSupplies.mono hSize⟩

theorem exists_first (hx : (x == x) = true) (h : EvaluatesAll x fs s rs s')
    (hLeaf : ∀ f ∈ fs, s.IsLeaf f) {f : FunctionId} (hf : f ∈ fs) : ∃ first cls triples,
      s'.functions[f.pos]? = some (.leaf cls triples) ∧
        triples.find? (·.point == x) = some first := by
  obtain ⟨k, hk⟩ := List.mem_iff_getElem?.mp hf
  have hBound : k < rs.length := h.length_eq ▸ (List.getElem?_eq_some_iff.mp hk).1
  obtain ⟨cls, triples, first, hSupplies⟩ := h.exists_supplies hx hLeaf (f, rs[k])
    (List.mem_of_getElem? (List.getElem?_zip_eq_some.mpr ⟨hk, List.getElem?_eq_getElem hBound⟩))
  exact ⟨first, cls, triples, hSupplies.leaf, hSupplies.find⟩

theorem pairwise_gradient_ne (hx : (x == x) = true) (h : EvaluatesAll x fs s rs s')
    (hLeaf : ∀ f ∈ fs, s.IsLeaf f) : (fs.zip rs).Pairwise fun p q =>
      s'.IsSeveral p.1 → s'.IsSeveral q.1 → p.2.1 ≠ q.2.1 := by
  induction h with
  | nil s => exact .nil
  | @cons f fs s s₁ s' r rs hFirst hRest ih =>
    obtain ⟨hHead, hTail⟩ := List.forall_mem_cons.mp hLeaf
    have hGrows := growsAt_evalOracle hHead hFirst
    have hLeaf₁ : ∀ f ∈ fs, s₁.IsLeaf f := fun f hf => hGrows.isLeaf (hTail f hf)
    rw [List.zip_cons_cons, List.pairwise_cons]
    refine ⟨fun pair hPair => ?_, ih hLeaf₁⟩
    rintro ⟨cls', triples', hBody', hSeveral'⟩ ⟨cls'', triples'', hBody'', hSeveral''⟩ hSame
    obtain ⟨cls, triples, first, hSupplies⟩ := exists_supplies_of_evalOracle hx hHead hFirst
    obtain ⟨triples₁, hBody₁, -⟩ := hRest.precedes.leaf hSupplies.leaf
    cases hBody'.symm.trans hBody₁
    obtain ⟨cls₂, triples₂, first₂, hSupplies₂⟩ := hRest.exists_supplies hx hLeaf₁ pair hPair
    cases hBody''.symm.trans hSupplies₂.leaf
    -- the later gradient is a vector that was registered after the earlier one
    obtain ⟨i, hi, -, hLess⟩ := hSupplies.several hSeveral'
    obtain ⟨j, hj, hLater, -⟩ := hSupplies₂.several hSeveral''
    rw [hi, hj] at hSame
    injection hSame with hTerms
    injection hTerms with hTerm
    injection hTerm with hIndex
    injection hIndex with hPos
    omega

end EvaluatesAll

end Action

end Occurrences

section Flattened

/-- The weighted sum of results, for some of which the weights come from different paths. -/
structure Represents (parts : List (ℝ × Point ℝ × Expression ℝ)) (r : Point ℝ × Expression ℝ) :
    Prop where
  gradient : r.1.Equivalent (.weighted (parts.map fun p => (p.1, p.2.1)))
  value : r.2.Equivalent (.weighted (parts.map fun p => (p.1, p.2.2)))
  canonical_gradient : (∀ p ∈ parts, p.2.1.Canonical) → r.1.Canonical
  canonical_value : (∀ p ∈ parts, p.2.2.Canonical) → r.2.Canonical

namespace Represents

variable {parts parts' : List (ℝ × Point ℝ × Expression ℝ)} {r r' : Point ℝ × Expression ℝ}

theorem nil : Represents [] (0, 0) where
  gradient _ := rfl
  value _ _ := rfl
  canonical_gradient _ := Point.Canonical.zero
  canonical_value _ := Expression.canonical_const _

theorem singleton (r : Point ℝ × Expression ℝ) : Represents [(1, r)] r where
  gradient b := by simp [Point.evalAt_weighted]
  value gram value := by simp [Expression.evalAt_weighted]
  canonical_gradient h := h _ (List.mem_singleton_self _)
  canonical_value h := h _ (List.mem_singleton_self _)

theorem axpy (h : Represents parts r) (w : ℝ) (h' : Represents parts' r') :
    Represents (parts ++ parts'.map fun p => (w * p.1, p.2))
      (r.1.axpy w r'.1, r.2.axpy w r'.2) where
  gradient b := by
    rw [Point.evalAt_axpy, h.gradient b, h'.gradient b, Point.evalAt_weighted,
      Point.evalAt_weighted, Point.evalAt_weighted, ← List.sum_map_mul_left]
    simp [Function.comp_def, mul_assoc]
  value gram value := by
    rw [Expression.evalAt_axpy, h.value gram value, h'.value gram value,
      Expression.evalAt_weighted, Expression.evalAt_weighted, Expression.evalAt_weighted,
      ← List.sum_map_mul_left]
    simp [Function.comp_def, mul_assoc]
  canonical_gradient hParts := by
    obtain ⟨hFirst, hSecond⟩ := List.forall_mem_append.mp hParts
    exact (h.canonical_gradient hFirst).axpy _
      (h'.canonical_gradient fun p hp => hSecond (w * p.1, p.2) (List.mem_map.mpr ⟨p, hp, rfl⟩))
  canonical_value hParts := by
    obtain ⟨hFirst, hSecond⟩ := List.forall_mem_append.mp hParts
    exact (h.canonical_value hFirst).axpy _
      (h'.canonical_value fun p hp => hSecond (w * p.1, p.2) (List.mem_map.mpr ⟨p, hp, rfl⟩))

end Represents

namespace Action

variable {x : Point ℝ} {s s' : Session ℝ} {f : FunctionId} {r a : Point ℝ × Expression ℝ}
  {terms : List (FunctionId × ℝ)}

/-- The terms of a sum one after the other, if the oracle of each is known to follow its paths. -/
theorem exists_evaluatesAll_of_terms
    (hTerm : ∀ (t : FunctionId) (s s' : Session ℝ) (r : Point ℝ × Expression ℝ), t.pos < f.pos →
      evalOracle x t s = .ok r s' → ∃ rs, EvaluatesAll x ((s.paths t).map (·.1)) s rs s' ∧
        Represents (((s.paths t).map (·.2.prod)).zip rs) r)
    (h : (terms.foldlM (fun (g, v) (t, w) => do
      if _h : t.pos < f.pos then
        let (gt, vt) ← evalOracle x t
        return (g.axpy w gt, v.axpy w vt)
      else fail (.unknownFunction t f.pos)) a : Action ℝ (Point ℝ × Expression ℝ)) s = .ok r s') :
    ∃ rs, EvaluatesAll x ((terms.flatMap (s.termPaths f)).map (·.1)) s rs s' ∧
      ∀ parts, Represents parts a →
        Represents (parts ++ ((terms.flatMap (s.termPaths f)).map (·.2.prod)).zip rs) r := by
  induction terms generalizing s a with
  | nil =>
    cases h
    refine ⟨[], .nil _, fun parts hParts => ?_⟩
    rwa [List.zip_nil_right, List.append_nil]
  | cons term terms ih =>
    obtain ⟨t, w⟩ := term
    rw [List.foldlM_cons] at h
    obtain ⟨r₁, s₁, hHead, hRest⟩ := bind_eq_ok_iff.mp h
    dsimp only at hHead
    split at hHead
    · rename_i hLess
      obtain ⟨⟨gt, vt⟩, s₂, hEval, hResult⟩ := bind_eq_ok_iff.mp hHead
      cases hResult
      obtain ⟨rs, hFirst, hRepresents⟩ := hTerm t s _ _ hLess hEval
      -- the head gave its leaves triples, which changes no path of the later terms
      have hGrows := hFirst.growsAt (s.isLeaf_of_mem_map_paths t)
      obtain ⟨rs', hLater, hAdd⟩ := ih hRest
      rw [hGrows.termPaths_eq] at hLater hAdd
      have hHeadPaths : s.termPaths f (t, w) = (s.paths t).map fun path => (path.1, w :: path.2) :=
        if_pos hLess
      have hLength : ((s.paths t).map fun path => w * path.2.prod).length = rs.length := by
        rw [hFirst.length_eq, List.length_map, List.length_map]
      refine ⟨rs ++ rs', ?_, fun parts hParts => ?_⟩
      · rw [List.flatMap_cons, List.map_append, hHeadPaths, List.map_map]
        exact hFirst.append hLater
      · have hNext := hAdd _ (hParts.axpy w hRepresents)
        have hScaled : ((s.paths t).map fun path => w * path.2.prod).zip rs =
            (((s.paths t).map (·.2.prod)).zip rs).map fun p => (w * p.1, p.2) := by
          simp [List.zip_map_left, Function.comp_def]
        rw [List.flatMap_cons, List.map_append, hHeadPaths, List.map_map]
        simp only [Function.comp_def, List.prod_cons]
        rwa [List.zip_append hLength, hScaled, ← List.append_assoc]
    · cases hHead

theorem exists_evaluatesAll_of_evalOracle (h : evalOracle x f s = .ok r s') :
    ∃ rs, EvaluatesAll x ((s.paths f).map (·.1)) s rs s' ∧
      Represents (((s.paths f).map (·.2.prod)).zip rs) r := by
  induction hPos : f.pos using Nat.strongRecOn generalizing f r s s' with
  | ind pos ih =>
    cases hBody : s.functions[f.pos]? with
    | none =>
      rw [evalOracle, lookup_bind_of_none hBody] at h
      cases h
    | some body =>
      cases body with
      | leaf cls triples =>
        rw [paths_leaf hBody]
        exact ⟨[r], .cons h (.nil _), .singleton r⟩
      | sum terms =>
        rw [evalOracle, lookup_bind_of_some hBody] at h
        rw [paths_sum hBody]
        obtain ⟨rs, hAll, hAdd⟩ := exists_evaluatesAll_of_terms
          (fun t s s' r hLess hEval => ih _ (hPos ▸ hLess) hEval rfl) h
        exact ⟨rs, hAll, hAdd [] .nil⟩

theorem exists_terms_of_room
    (hTerm : ∀ (t : FunctionId) (s : Session ℝ), t.pos < f.pos → s.WellFormed →
      x.Below s.basis.size → t.pos < s.functions.length →
      s.basis.size + (s.paths t).length ≤ s.basis.capacity → ∃ r s', evalOracle x t s = .ok r s')
    (hs : s.WellFormed) (hx : x.Below s.basis.size) (hf : f.pos < s.functions.length)
    (hBefore : ∀ term ∈ terms, term.1.pos < f.pos)
    (hRoom : s.basis.size + (terms.flatMap (s.termPaths f)).length ≤ s.basis.capacity) :
    ∃ r s', (terms.foldlM (fun (g, v) (t, w) => do
      if _h : t.pos < f.pos then
        let (gt, vt) ← evalOracle x t
        return (g.axpy w gt, v.axpy w vt)
      else fail (.unknownFunction t f.pos)) a : Action ℝ (Point ℝ × Expression ℝ)) s =
        .ok r s' := by
  induction terms generalizing s a with
  | nil => exact ⟨_, _, rfl⟩
  | cons term terms ih =>
    obtain ⟨t, w⟩ := term
    obtain ⟨hLess, hRest⟩ := List.forall_mem_cons.mp hBefore
    dsimp only at hLess
    have hHeadPaths : (s.termPaths f (t, w)).length = (s.paths t).length := by
      rw [termPaths, if_pos hLess, List.length_map]
    rw [List.flatMap_cons, List.length_append, hHeadPaths] at hRoom
    obtain ⟨r, s₁, hEval⟩ := hTerm t s hLess hs hx (hLess.trans hf) (by omega)
    obtain ⟨rs, hAll, -⟩ := exists_evaluatesAll_of_evalOracle hEval
    have hGrows := hAll.growsAt (s.isLeaf_of_mem_map_paths t)
    obtain ⟨hCapacity, hSize⟩ := hAll.basis (s.isLeaf_of_mem_map_paths t)
    rw [List.length_map] at hSize
    have hSteps : Steps False s s₁ := ((leads_evalOracle hs hx t).of_eq_ok hEval).1
    obtain ⟨r', s', hFold⟩ := ih (a := (a.1.axpy w r.1, a.2.axpy w r.2))
      (hSteps.wellFormed hs) (hx.mono hSteps.precedes.size_le) (hGrows.length ▸ hf) hRest
      (by rw [hGrows.termPaths_eq, hCapacity]; omega)
    refine ⟨r', s', ?_⟩
    rw [List.foldlM_cons]
    refine bind_eq_ok_iff.mpr ⟨_, s₁, ?_, hFold⟩
    dsimp only
    rw [dif_pos hLess]
    exact bind_eq_ok_iff.mpr ⟨r, s₁, hEval, rfl⟩

/-- An oracle succeeds if there is room for one basis vector at the end of each path. -/
theorem exists_evalOracle_of_room (hs : s.WellFormed) (hx : x.Below s.basis.size)
    (hf : f.pos < s.functions.length)
    (hRoom : s.basis.size + (s.paths f).length ≤ s.basis.capacity) :
    ∃ r s', evalOracle x f s = .ok r s' := by
  induction hPos : f.pos using Nat.strongRecOn generalizing f s with
  | ind pos ih =>
    cases hBody : s.functions[f.pos]? with
    | none => exact absurd hf (List.getElem?_eq_none_iff.mp hBody).not_gt
    | some body =>
      cases body with
      | leaf cls triples =>
        rw [paths_leaf hBody] at hRoom
        have hLess : s.basis.size < s.basis.capacity := hRoom
        have hEvaluates := evaluatesLeaf (x := x) hBody
        generalize evalOracle x f s = result at hEvaluates ⊢
        cases hEvaluates with
        | full hFull => simp [Basis.register?, hLess] at hFull
        | known | again | new => exact ⟨_, _, rfl⟩
      | sum terms =>
        rw [paths_sum hBody] at hRoom
        rw [evalOracle, lookup_bind_of_some hBody]
        exact exists_terms_of_room
          (fun t s hLess hs hx ht hRoom => ih _ (hPos ▸ hLess) hs hx ht hRoom rfl) hs hx hf
          (fun term hTerm => ((hs.sums hBody).2 term hTerm).1) hRoom

end Action

namespace Session

variable {s s' : Session ℝ} {x : Point ℝ} {f : FunctionId} {r : Point ℝ × Expression ℝ}
  {rs : List (Point ℝ × Expression ℝ)} {first : FunctionId → Triple ℝ}

/-- The sum over all paths to a leaf of the products of the weights along them. -/
def weightTo (s : Session ℝ) (f leaf : FunctionId) : ℝ :=
  (((s.paths f).filter (·.1 = leaf)).map (·.2.prod)).sum

theorem sum_paths (s : Session ℝ) (f : FunctionId) (a : FunctionId → ℝ) :
    ((s.paths f).map fun path => path.2.prod * a path.1).sum =
      ((s.leaves f).map fun leaf => s.weightTo f leaf * a leaf).sum := by
  have hGroups := sum_map_eq_sum_dedup ((s.paths f).map fun path => (path.1, path.2.prod)) a
  simpa [List.filter_map, Function.comp_def, leaves, weightTo] using hGroups

/-- An oracle has evaluated the leaves of a function at a point, and returned the flattened sum. -/
structure Flattens (s : Session ℝ) (f : FunctionId) (x : Point ℝ) (r : Point ℝ × Expression ℝ)
    (s' : Session ℝ) (first : FunctionId → Triple ℝ) (gradients : List (Point ℝ)) : Prop where
  found : ∀ leaf ∈ s.leaves f, ∃ cls triples,
    s'.functions[leaf.pos]? = some (.leaf cls triples) ∧
      triples.find? (·.point == x) = some (first leaf)
  value : r.2.Equivalent
    (.weighted ((s.leaves f).map fun leaf => (s.weightTo f leaf, (first leaf).value)))
  value_eq : (∀ leaf ∈ s.leaves f, (first leaf).value.Canonical) →
    r.2 = .weighted ((s.leaves f).map fun leaf => (s.weightTo f leaf, (first leaf).value))
  length : gradients.length = (s.paths f).length
  gradient : r.1.Equivalent (.weighted (((s.paths f).map (·.2.prod)).zip gradients))
  gradient_eq : (∀ y ∈ gradients, y.Canonical) →
    r.1 = .weighted (((s.paths f).map (·.2.prod)).zip gradients)
  occurrence : ∀ p ∈ (s.paths f).zip gradients, ∃ cls triples,
    s'.functions[p.1.1.pos]? = some (.leaf cls triples) ∧
      (∃ t ∈ triples, t.point = x ∧ t.gradient = p.2) ∧
      (cls.singleValued = true → p.2 = (first p.1.1).gradient) ∧
      (cls.singleValued = false →
        ∃ i, p.2 = .ofBasis ⟨i⟩ ∧ s.basis.size ≤ i ∧ i < s'.basis.size)
  distinct : ((s.paths f).zip gradients).Pairwise fun p q =>
    s'.IsSeveral p.1.1 → s'.IsSeveral q.1.1 → p.2 ≠ q.2
  single : ∀ leaf ∈ s.leaves f, ¬ s'.IsSeveral leaf →
    Point.Equivalent
      (.weighted ((((s.paths f).zip gradients).filter (·.1.1 = leaf)).map fun p =>
        (p.1.2.prod, p.2)))
      ((first leaf).gradient.scale (s.weightTo f leaf))
  grows : s.GrowsAt x (s.leaves f) s'

section Parts

theorem zip_weights (s : Session ℝ) (f : FunctionId) {β : Type} (bs : List β) :
    ((s.paths f).map (·.2.prod)).zip bs =
      ((s.paths f).zip bs).map fun p => (p.1.2.prod, p.2) := by
  rw [List.zip_map_left]
  rfl

theorem mem_leaves_of_mem_zip {β : Type} {bs : List β} {p : (FunctionId × List ℝ) × β}
    (hp : p ∈ (s.paths f).zip bs) : p.1.1 ∈ s.leaves f :=
  List.mem_dedup.mpr (List.mem_map_of_mem (List.of_mem_zip hp).1)

/-- If the values at occurrences of a leaf are the same, the weighted sum of them is over leaves. -/
theorem equivalent_value (hRepresents : Represents (((s.paths f).map (·.2.prod)).zip rs) r)
    (hLength : (s.paths f).length = rs.length)
    (hValue : ∀ p ∈ (s.paths f).zip rs, p.2.2 = (first p.1.1).value) :
    r.2.Equivalent
      (.weighted ((s.leaves f).map fun leaf => (s.weightTo f leaf, (first leaf).value))) := by
  intro gram value
  have hEach : ((s.paths f).zip rs).map (fun p => p.1.2.prod * p.2.2.evalAt gram value) =
      (s.paths f).map fun path => path.2.prod * (first path.1).value.evalAt gram value := by
    calc ((s.paths f).zip rs).map (fun p => p.1.2.prod * p.2.2.evalAt gram value)
      _ = (((s.paths f).zip rs).map (·.1)).map fun path =>
          path.2.prod * (first path.1).value.evalAt gram value := by
        rw [List.map_map]
        exact List.map_congr_left fun p hp => by rw [hValue p hp]; rfl
      _ = _ := by rw [List.map_fst_zip hLength.le]
  rw [hRepresents.value gram value, Expression.evalAt_weighted, Expression.evalAt_weighted,
    zip_weights, List.map_map, List.map_map, List.map_map]
  exact (congrArg List.sum hEach).trans
    (s.sum_paths f fun leaf => (first leaf).value.evalAt gram value)

/-- If the gradients at occurrences of a leaf are the same, they add up to a multiple of it. -/
theorem equivalent_single {gradients : List (Point ℝ)} {leaf : FunctionId}
    (hLength : (s.paths f).length = gradients.length)
    (hGradient : ∀ p ∈ (s.paths f).zip gradients, p.1.1 = leaf → p.2 = (first leaf).gradient) :
    Point.Equivalent
      (.weighted ((((s.paths f).zip gradients).filter (·.1.1 = leaf)).map fun p =>
        (p.1.2.prod, p.2)))
      ((first leaf).gradient.scale (s.weightTo f leaf)) := by
  intro b
  have hEach : (((s.paths f).zip gradients).filter (·.1.1 = leaf)).map
      (fun p => p.1.2.prod * p.2.evalAt b) =
      ((s.paths f).filter (·.1 = leaf)).map fun path =>
        path.2.prod * (first leaf).gradient.evalAt b := by
    calc (((s.paths f).zip gradients).filter (·.1.1 = leaf)).map
          (fun p => p.1.2.prod * p.2.evalAt b)
      _ = ((((s.paths f).zip gradients).filter (·.1.1 = leaf)).map (·.1)).map fun path =>
          path.2.prod * (first leaf).gradient.evalAt b := by
        rw [List.map_map]
        refine List.map_congr_left fun p hp => ?_
        obtain ⟨hMem, hLeaf⟩ := List.mem_filter.mp hp
        rw [hGradient p hMem (by simpa using hLeaf)]
        rfl
      _ = _ := by
        have hFilter := List.filter_map (p := fun path : FunctionId × List ℝ => path.1 = leaf)
          (f := Prod.fst) (l := (s.paths f).zip gradients)
        rw [List.map_fst_zip hLength.le] at hFilter
        rw [hFilter]
        rfl
  rw [Point.evalAt_weighted, Point.evalAt_scale, List.map_map, weightTo, ← List.sum_map_mul_right]
  exact congrArg List.sum hEach

open PerformanceEstimation.Action in
/-- Each occurrence of a leaf is supplied by the first triple at the point, or for a new one. -/
theorem supplies_of_found (hAll : EvaluatesAll x ((s.paths f).map (·.1)) s rs s')
    (hFound : ∀ leaf ∈ s.leaves f, ∃ cls triples,
      s'.functions[leaf.pos]? = some (.leaf cls triples) ∧
        triples.find? (·.point == x) = some (first leaf))
    {p : (FunctionId × List ℝ) × (Point ℝ × Expression ℝ)} (hp : p ∈ (s.paths f).zip rs) :
    ∃ cls triples, s'.Supplies x p.1.1 s.basis.size p.2 cls triples (first p.1.1) := by
  have hPair : (p.1.1, p.2) ∈ ((s.paths f).map (·.1)).zip rs := by
    rw [List.zip_map_left]
    exact List.mem_map.mpr ⟨p, hp, rfl⟩
  obtain ⟨cls, triples, first', hSupply⟩ :=
    hAll.exists_supplies BEq.rfl (s.isLeaf_of_mem_map_paths f) _ hPair
  obtain ⟨cls', triples', hBody, hFind⟩ := hFound _ (mem_leaves_of_mem_zip hp)
  cases hBody.symm.trans hSupply.leaf
  cases hFind.symm.trans hSupply.find
  exact ⟨cls, triples, hSupply⟩

theorem exists_of_mem_zip_gradients {p : (FunctionId × List ℝ) × Point ℝ}
    (hp : p ∈ (s.paths f).zip (rs.map (·.1))) :
    ∃ q ∈ (s.paths f).zip rs, p = (q.1, q.2.1) := by
  rw [List.zip_map_right] at hp
  obtain ⟨q, hq, rfl⟩ := List.mem_map.mp hp
  exact ⟨q, hq, rfl⟩

end Parts

open PerformanceEstimation.Action in
theorem flattens_of_represents (hAll : EvaluatesAll x ((s.paths f).map (·.1)) s rs s')
    (hRepresents : Represents (((s.paths f).map (·.2.prod)).zip rs) r)
    (hFound : ∀ leaf ∈ s.leaves f, ∃ cls triples,
      s'.functions[leaf.pos]? = some (.leaf cls triples) ∧
        triples.find? (·.point == x) = some (first leaf)) :
    s.Flattens f x r s' first (rs.map (·.1)) := by
  have hLength : (s.paths f).length = rs.length := by rw [hAll.length_eq, List.length_map]
  have hIsLeaf := s.isLeaf_of_mem_map_paths f
  have hSupplies {p} (hp : p ∈ (s.paths f).zip rs) := supplies_of_found hAll hFound hp
  have hValue : ∀ p ∈ (s.paths f).zip rs, p.2.2 = (first p.1.1).value := by
    intro p hp
    obtain ⟨cls, triples, hSupply⟩ := hSupplies hp
    exact hSupply.value
  have hGradients : (((s.paths f).map (·.2.prod)).zip rs).map (fun p => (p.1, p.2.1)) =
      ((s.paths f).map (·.2.prod)).zip (rs.map (·.1)) := by
    rw [List.zip_map_right]
    rfl
  have hEquivalent := equivalent_value hRepresents hLength hValue
  have hGradient := hGradients ▸ hRepresents.gradient
  refine ⟨hFound, hEquivalent, fun hCanonical => ?_, by rw [List.length_map, hLength], hGradient,
    fun hCanonical => ?_, fun p hp => ?_, ?_, fun leaf hLeaf hOne => ?_, ?_⟩
  · refine hEquivalent.eq (hRepresents.canonical_value fun p hp => ?_)
      (Expression.canonical_weighted fun term hTerm => ?_)
    · rw [zip_weights] at hp
      obtain ⟨q, hq, rfl⟩ := List.mem_map.mp hp
      rw [hValue q hq]
      exact hCanonical _ (mem_leaves_of_mem_zip hq)
    · obtain ⟨leaf, hLeaf, rfl⟩ := List.mem_map.mp hTerm
      exact hCanonical leaf hLeaf
  · refine hGradient.eq (hRepresents.canonical_gradient fun p hp => ?_)
      (Point.canonical_weighted fun term hTerm => hCanonical _ (List.of_mem_zip hTerm).2)
    exact hCanonical _ (List.mem_map_of_mem (List.of_mem_zip hp).2)
  · obtain ⟨q, hq, rfl⟩ := exists_of_mem_zip_gradients hp
    obtain ⟨cls, triples, hSupply⟩ := hSupplies hq
    obtain ⟨t, hMem, hPoint, hEqual⟩ := hSupply.gradient
    exact ⟨cls, triples, hSupply.leaf, ⟨t, hMem, eq_of_beq hPoint, hEqual⟩, hSupply.single,
      hSupply.several⟩
  · have hPairs := hAll.pairwise_gradient_ne BEq.rfl hIsLeaf
    rw [List.zip_map_left, List.pairwise_map] at hPairs
    rw [List.zip_map_right, List.pairwise_map]
    exact hPairs
  · refine equivalent_single (by rw [List.length_map, hLength]) fun p hp hSame => ?_
    obtain ⟨q, hq, rfl⟩ := exists_of_mem_zip_gradients hp
    obtain ⟨cls, triples, hSupply⟩ := hSupplies hq
    have hSingle : cls.singleValued = true := by
      by_contra hSeveral
      exact hOne ⟨cls, triples, hSame ▸ hSupply.leaf, by simpa using hSeveral⟩
    rw [← hSame]
    exact hSupply.single hSingle
  · exact (hAll.growsAt hIsLeaf).mono fun leaf hLeaf => List.mem_dedup.mpr hLeaf

theorem Flattens.touch {gradients : List (Point ℝ)}
    (h : s.Flattens f x r s' first gradients) : s.Flattens f x r s'.touch first gradients :=
  ⟨h.found, h.value, h.value_eq, h.length, h.gradient, h.gradient_eq, h.occurrence, h.distinct,
    h.single, ⟨h.grows.length, h.grows.leaf, h.grows.sum⟩⟩

open PerformanceEstimation.Action in
/-- An oracle of nested sums returns the sum over the leaves that the function reaches, each with
its total weight over all paths. The value of a leaf is that of its first triple at the point, and
so is the gradient if it has only one; the others get a new gradient for each path. Asked for the
value alone, before or afterwards, the session returns the same one. -/
theorem oracle_flattens (par : Parameters ℝ) (calls : List (Call ℝ))
    (hs : (new par).run calls = s) (h : oracle f x s = .ok r s') :
    (∀ leaf, leaf ∈ s.leaves f ↔ s.Reaches f leaf ∧ s.IsLeaf leaf) ∧
    (∃ first gradients, s.Flattens f x r s' first gradients) ∧
    (∃ t, value f x s = .ok r.2 t) ∧ value f x s' = .ok r.2 s' := by
  have hWell : s.WellFormed := hs ▸ (wellFormed_new par).run calls
  have hStanding := (isDeclaration_oracle f x).succeed h
  obtain ⟨hBelow', g, hKnown, -⟩ := known_of_oracle BEq.rfl h
  obtain ⟨hLive, s₁, hCall, rfl⟩ := declaring_eq_ok_iff.mp h
  obtain ⟨hBelow, hEval⟩ := checkPoint_bind_eq_ok_iff.mp hCall
  refine ⟨fun leaf => mem_leaves_iff hWell, ?_, ?_, ?_⟩
  · obtain ⟨rs, hAll, hRepresents⟩ := exists_evaluatesAll_of_evalOracle hEval
    have hFirst : ∀ leaf, ∃ first, leaf ∈ s.leaves f → ∃ cls triples,
        s₁.functions[leaf.pos]? = some (.leaf cls triples) ∧
          triples.find? (·.point == x) = some first := by
      intro leaf
      by_cases hLeaf : leaf ∈ s.leaves f
      · obtain ⟨first, hFirst⟩ := hAll.exists_first BEq.rfl (s.isLeaf_of_mem_map_paths f)
          (List.mem_dedup.mp hLeaf)
        exact ⟨first, fun _ => hFirst⟩
      · exact ⟨⟨0, 0, 0⟩, fun hMem => (hLeaf hMem).elim⟩
    choose first hFound using hFirst
    exact ⟨first, _, (flattens_of_represents hAll hRepresents hFound).touch⟩
  · obtain ⟨t, hValue, -⟩ := exists_evalValue_of_evalOracle BEq.rfl hEval (.refl s)
    exact ⟨t.touch, declaring_eq_ok_iff.mpr ⟨hLive, t,
      checkPoint_bind_eq_ok_iff.mpr ⟨hBelow, hValue⟩, rfl⟩⟩
  · refine declaring_eq_ok_iff.mpr ⟨(congrArg Standing.poisoned hStanding).trans hLive, s₁.touch,
      checkPoint_bind_eq_ok_iff.mpr ⟨hBelow', evalValue_of_known hKnown⟩, ?_⟩
    exact (touch_touch s₁).symm

section Example

open PerformanceEstimation.Action

attribute [local instance] atLeastTwo_two atLeastTwo_four

/-- A convex function, and a sum which lists it next to a multiple of it. -/
noncomputable def nestedSum : Session ℝ where
  parameters := { onePoint with maxBasis := 3 }
  basis := ⟨3, [.initialPoint]⟩
  valueCount := 0
  functions := [.leaf .convex [], .sum [(⟨0⟩, 1)], .sum [(⟨1⟩, 2), (⟨0⟩, 4)]]
  declared := ∅
  metric := none
  status := .unsolved
  failure := none
  poisoned := false

theorem paths_nestedSum : nestedSum.paths ⟨2⟩ = [(⟨0⟩, [2, 1]), (⟨0⟩, [4])] := by
  have hLeaf : nestedSum.paths ⟨0⟩ = [(⟨0⟩, [])] := paths_leaf rfl
  have hInner : nestedSum.paths ⟨1⟩ = [(⟨0⟩, [1])] := by
    rw [paths_sum (show nestedSum.functions[1]? = some (.sum [(⟨0⟩, 1)]) from rfl)]
    simp [termPaths, hLeaf]
  rw [paths_sum (show nestedSum.functions[2]? = some (.sum [(⟨1⟩, 2), (⟨0⟩, 4)]) from rfl)]
  simp [termPaths, hLeaf, hInner]

theorem oracle_flattens_nestedSum : ∃ r s' first gradients,
    oracle ⟨2⟩ (.ofBasis ⟨0⟩) nestedSum = .ok r s' ∧
    nestedSum.Flattens ⟨2⟩ (.ofBasis ⟨0⟩) r s' first gradients ∧ nestedSum.weightTo ⟨2⟩ ⟨0⟩ = 6 ∧
    value ⟨2⟩ (.ofBasis ⟨0⟩) s' = .ok r.2 s' := by
  have hRun : (new { onePoint with maxBasis := 3 }).run [.initialPoint, .declareFunction .convex,
      .declareSum [(⟨0⟩, 1)], .declareSum [(⟨1⟩, 2), (⟨0⟩, 4)]] = nestedSum := rfl
  have hWell : nestedSum.WellFormed := hRun ▸ (wellFormed_new _).run _
  have hBelow : (Point.ofBasis ⟨0⟩ : Point ℝ).Below nestedSum.basis.size :=
    Point.below_ofBasis Nat.one_pos
  obtain ⟨r, s₁, hEval⟩ := exists_evalOracle_of_room (f := ⟨2⟩) hWell hBelow (by decide)
    (by rw [paths_nestedSum]; decide)
  obtain ⟨s', hFound⟩ : ∃ s', oracle ⟨2⟩ (.ofBasis ⟨0⟩) nestedSum = .ok r s' :=
    ⟨s₁.touch, declaring_eq_ok_iff.mpr
      ⟨rfl, s₁, checkPoint_bind_eq_ok_iff.mpr ⟨hBelow, hEval⟩, rfl⟩⟩
  obtain ⟨-, ⟨first, gradients, hFlattens⟩, -, hValue⟩ := oracle_flattens _ _ hRun hFound
  have hWeight : nestedSum.weightTo ⟨2⟩ ⟨0⟩ = 6 := by
    rw [weightTo, paths_nestedSum]
    norm_num
  exact ⟨r, s', first, gradients, hFound, hFlattens, hWeight, hValue⟩

end Example

end Session

end Flattened

end PerformanceEstimation
