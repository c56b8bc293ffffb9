import Mathlib
import PerformanceEstimation.Proofs.Session.Recall

/-!
# Leaves evaluated in turn

Whatever function an oracle is asked for, in the end it evaluates leaves at one point, one after the
other: `Action.EvaluatesAll` follows such a sequence. Only the leaves of the sequence gain triples,
and only at that point (`GrowsAt`). Leaves that are distinct and were not evaluated there before get
one triple each, with the next basis vectors and values as gradients and values
(`EvaluatesAll.of_fresh`).
-/

set_option autoImplicit false

namespace PerformanceEstimation

namespace Session

variable {α : Type}

def IsLeaf (s : Session α) (f : FunctionId) : Prop :=
  ∃ cls triples, s.functions[f.pos]? = some (.leaf cls triples)

/-- Only the listed functions gained triples, all of them at the point. -/
structure GrowsAt (x : Point α) (fs : List FunctionId) (s s' : Session α) : Prop where
  length : s'.functions.length = s.functions.length
  leaf : ∀ {f : FunctionId} {cls : FunctionClass α} {triples : List (Triple α)},
    s.functions[f.pos]? = some (.leaf cls triples) → ∃ added,
      s'.functions[f.pos]? = some (.leaf cls (triples ++ added)) ∧
        (∀ t ∈ added, t.point = x) ∧ (f ∉ fs → added = [])
  sum : ∀ {f : FunctionId} {terms : List (FunctionId × α)},
    s.functions[f.pos]? = some (.sum terms) → s'.functions[f.pos]? = some (.sum terms)

namespace GrowsAt

variable {x : Point α} {fs gs : List FunctionId} {s t u : Session α} {f : FunctionId}

theorem of_functions (h : t.functions = s.functions) : GrowsAt x fs s t where
  length := congrArg List.length h
  leaf := by
    intro f cls triples hLeaf
    rw [h]
    exact ⟨[], by simpa using hLeaf, fun _ hNone => (nomatch hNone), fun _ => rfl⟩
  sum := by
    intro f terms hSum
    rwa [h]

theorem trans (h : GrowsAt x fs s t) (h' : GrowsAt x gs t u) : GrowsAt x (fs ++ gs) s u where
  length := h'.length.trans h.length
  leaf := by
    intro f cls triples hLeaf
    obtain ⟨first, hFirst, hFirstAt, hFirstNone⟩ := h.leaf hLeaf
    obtain ⟨second, hSecond, hSecondAt, hSecondNone⟩ := h'.leaf hFirst
    refine ⟨first ++ second, by rw [← List.append_assoc, hSecond], ?_, fun hOther => ?_⟩
    · exact List.forall_mem_append.mpr ⟨hFirstAt, hSecondAt⟩
    · rw [List.mem_append, not_or] at hOther
      rw [hFirstNone hOther.1, hSecondNone hOther.2, List.append_nil]
  sum hSum := h'.sum (h.sum hSum)

theorem mono (h : GrowsAt x fs s t) (hSubset : ∀ f ∈ fs, f ∈ gs) : GrowsAt x gs s t where
  length := h.length
  leaf hLeaf := by
    obtain ⟨added, hBody, hAt, hNone⟩ := h.leaf hLeaf
    exact ⟨added, hBody, hAt, fun hOther => hNone fun hMem => hOther (hSubset _ hMem)⟩
  sum := h.sum

theorem set {cls : FunctionClass α} {triples : List (Triple α)} {new : Triple α}
    (hLeaf : s.functions[f.pos]? = some (.leaf cls triples)) (hPoint : new.point = x)
    (h : t.functions = s.functions.set f.pos (.leaf cls (triples ++ [new]))) :
    GrowsAt x [f] s t where
  length := by rw [h, List.length_set]
  leaf := by
    intro g cls' triples' hLeaf'
    rw [h]
    by_cases hSame : f.pos = g.pos
    · rw [← hSame] at hLeaf' ⊢
      cases hLeaf.symm.trans hLeaf'
      refine ⟨[new], List.getElem?_set_self (List.getElem?_eq_some_iff.mp hLeaf).1, ?_, ?_⟩
      · exact fun t hNew => List.mem_singleton.mp hNew ▸ hPoint
      · have hEqual := congrArg FunctionId.mk hSame.symm
        exact fun hOther => (hOther (List.mem_singleton.mpr hEqual)).elim
    · refine ⟨[], ?_, fun _ hNone => (nomatch hNone), fun _ => rfl⟩
      rw [List.getElem?_set_ne hSame, hLeaf', List.append_nil]
  sum := by
    intro g terms hSum
    have hOther : f.pos ≠ g.pos := by
      intro hSame
      rw [← hSame, hLeaf] at hSum
      cases hSum
    rw [h, List.getElem?_set_ne hOther, hSum]

theorem isLeaf (h : GrowsAt x fs s t) (hLeaf : s.IsLeaf f) : t.IsLeaf f := by
  obtain ⟨cls, triples, hBody⟩ := hLeaf
  obtain ⟨added, hBody', -⟩ := h.leaf hBody
  exact ⟨cls, _, hBody'⟩

theorem getElem?_eq (h : GrowsAt x fs s t) (hOther : f ∉ fs) :
    t.functions[f.pos]? = s.functions[f.pos]? := by
  cases hBody : s.functions[f.pos]? with
  | none =>
    rw [List.getElem?_eq_none_iff] at hBody ⊢
    exact h.length.trans_le hBody
  | some body =>
    cases body with
    | leaf cls triples =>
      obtain ⟨added, hBody', -, hNone⟩ := h.leaf hBody
      rw [hBody', hNone hOther, List.append_nil]
    | sum terms => exact h.sum hBody

end GrowsAt

end Session

namespace Action

open Session

variable {α : Type} [Scalar α] {x : Point α} {s s₁ s' : Session α} {f : FunctionId}
  {r : Point α × Expression α}

/-- The functions are evaluated at the point one after the other, with these results. -/
inductive EvaluatesAll (x : Point α) :
    List FunctionId → Session α → List (Point α × Expression α) → Session α → Prop
  | nil (s : Session α) : EvaluatesAll x [] s [] s
  | cons {f : FunctionId} {fs : List FunctionId} {s s₁ s' : Session α}
    {r : Point α × Expression α} {rs : List (Point α × Expression α)}
    (hFirst : evalOracle x f s = .ok r s₁) (hRest : EvaluatesAll x fs s₁ rs s') :
    EvaluatesAll x (f :: fs) s (r :: rs) s'

theorem growsAt_evalOracle (hLeaf : s.IsLeaf f) (h : evalOracle x f s = .ok r s') :
    GrowsAt x [f] s s' := by
  obtain ⟨cls, triples, hBody⟩ := hLeaf
  have hEvaluates := evaluatesLeaf (x := x) hBody
  rw [h] at hEvaluates
  cases hEvaluates with
  | known hFirst hSingle => exact .of_functions rfl
  | again hFirst hSeveral hRoom => exact .set hBody rfl rfl
  | new hNone hRoom => exact .set hBody rfl rfl

theorem basis_of_evalOracle (hLeaf : s.IsLeaf f) (h : evalOracle x f s = .ok r s') :
    s'.basis.capacity = s.basis.capacity ∧ s'.basis.size ≤ s.basis.size + 1 := by
  obtain ⟨cls, triples, hBody⟩ := hLeaf
  have hEvaluates := evaluatesLeaf (x := x) hBody
  rw [h] at hEvaluates
  cases hEvaluates with
  | known hFirst hSingle => exact ⟨rfl, Nat.le_succ _⟩
  | again hFirst hSeveral hRoom | new hNone hRoom =>
    refine ⟨?_, (Basis.size_of_register? hRoom).le⟩
    obtain ⟨-, -, rfl⟩ := Basis.eq_of_register? hRoom
    rfl

/-- A leaf that was not evaluated at the point gets the next basis vector and the next value. -/
theorem evalOracle_of_fresh {cls : FunctionClass α} {triples : List (Triple α)}
    (hLeaf : s.functions[f.pos]? = some (.leaf cls triples))
    (hFresh : triples.find? (·.point == x) = none) (h : evalOracle x f s = .ok r s') :
    r = (.ofBasis ⟨s.basis.size⟩, .ofValue ⟨s.valueCount⟩) ∧
      s'.basis.size = s.basis.size + 1 ∧ s'.valueCount = s.valueCount + 1 ∧
      s'.functions[f.pos]? = some (.leaf cls (triples ++ [⟨x, r.1, r.2⟩])) := by
  have hEvaluates := evaluatesLeaf (x := x) hLeaf
  rw [h] at hEvaluates
  cases hEvaluates with
  | known hFirst hSingle => cases hFresh.symm.trans hFirst
  | again hFirst hSeveral hRoom => cases hFresh.symm.trans hFirst
  | new hNone hRoom =>
    have hSize := Basis.size_of_register? hRoom
    obtain ⟨rfl, -, -⟩ := Basis.eq_of_register? hRoom
    exact ⟨rfl, hSize, rfl, List.getElem?_set_self (List.getElem?_eq_some_iff.mp hLeaf).1⟩

namespace EvaluatesAll

variable {fs gs : List FunctionId} {rs rs' : List (Point α × Expression α)}

theorem append (h : EvaluatesAll x fs s rs s₁) (h' : EvaluatesAll x gs s₁ rs' s') :
    EvaluatesAll x (fs ++ gs) s (rs ++ rs') s' := by
  induction h with
  | nil => exact h'
  | cons hFirst _ ih => exact .cons hFirst (ih h')

theorem length_eq (h : EvaluatesAll x fs s rs s') : rs.length = fs.length := by
  induction h with
  | nil => rfl
  | cons _ _ ih => rw [List.length_cons, List.length_cons, ih]

theorem precedes (h : EvaluatesAll x fs s rs s') : s.Precedes s' := by
  induction h with
  | nil s => exact .refl s
  | cons hFirst _ ih => exact ((within_evalOracle admits_precedes x _).of_eq_ok hFirst).trans ih

theorem growsAt (h : EvaluatesAll x fs s rs s') (hLeaf : ∀ f ∈ fs, s.IsLeaf f) :
    GrowsAt x fs s s' := by
  induction h with
  | nil s => exact .of_functions rfl
  | cons hFirst hRest ih =>
    obtain ⟨hHead, hTail⟩ := List.forall_mem_cons.mp hLeaf
    have hGrows := growsAt_evalOracle hHead hFirst
    exact hGrows.trans (ih fun f hf => hGrows.isLeaf (hTail f hf))

theorem basis (h : EvaluatesAll x fs s rs s') (hLeaf : ∀ f ∈ fs, s.IsLeaf f) :
    s'.basis.capacity = s.basis.capacity ∧ s'.basis.size ≤ s.basis.size + fs.length := by
  induction h with
  | nil s => exact ⟨rfl, le_rfl⟩
  | cons hFirst hRest ih =>
    obtain ⟨hHead, hTail⟩ := List.forall_mem_cons.mp hLeaf
    have hGrows := growsAt_evalOracle hHead hFirst
    obtain ⟨hCapacity, hSize⟩ := basis_of_evalOracle hHead hFirst
    obtain ⟨hCapacity', hSize'⟩ := ih fun f hf => hGrows.isLeaf (hTail f hf)
    rw [List.length_cons]
    exact ⟨hCapacity'.trans hCapacity, by omega⟩

/-- Distinct leaves that were not evaluated at the point get one triple each. -/
theorem of_fresh (h : EvaluatesAll x fs s rs s') (hDistinct : fs.Nodup)
    (hFresh : ∀ f ∈ fs, ∃ cls triples, s.functions[f.pos]? = some (.leaf cls triples) ∧
      triples.find? (·.point == x) = none) :
    s'.basis.size = s.basis.size + fs.length ∧ s'.valueCount = s.valueCount + fs.length ∧
      ∀ (k : ℕ) (f : FunctionId), fs[k]? = some f →
        rs[k]? = some (.ofBasis ⟨s.basis.size + k⟩, .ofValue ⟨s.valueCount + k⟩) ∧
        ∀ cls triples, s.functions[f.pos]? = some (.leaf cls triples) →
          s'.functions[f.pos]? = some (.leaf cls (triples ++
            [⟨x, .ofBasis ⟨s.basis.size + k⟩, .ofValue ⟨s.valueCount + k⟩⟩])) := by
  induction h with
  | nil s => exact ⟨rfl, rfl, fun k f hNone => nomatch hNone⟩
  | @cons f fs s s₁ s' r rs hFirst hRest ih =>
    obtain ⟨hNew, hDistinct'⟩ := List.nodup_cons.mp hDistinct
    obtain ⟨⟨cls, triples, hBody, hNone⟩, hOthers⟩ := List.forall_mem_cons.mp hFresh
    obtain ⟨rfl, hSize, hCount, hBody₁⟩ := evalOracle_of_fresh hBody hNone hFirst
    have hGrows := growsAt_evalOracle ⟨cls, triples, hBody⟩ hFirst
    have hSame {g : FunctionId} (hg : g ∈ fs) :
        s₁.functions[g.pos]? = s.functions[g.pos]? :=
      hGrows.getElem?_eq fun hHead => hNew (List.mem_singleton.mp hHead ▸ hg)
    -- the first leaf is not among the others, so its triple stays the last one
    have hLater : GrowsAt x fs s₁ s' := hRest.growsAt fun g hg => by
      obtain ⟨cls', triples', hBody', -⟩ := hOthers g hg
      exact ⟨cls', triples', (hSame hg).trans hBody'⟩
    obtain ⟨hSize', hCount', hEach⟩ := ih hDistinct' fun g hg => by
      rw [hSame hg]
      exact hOthers g hg
    refine ⟨by rw [hSize', hSize, List.length_cons]; omega,
      by rw [hCount', hCount, List.length_cons]; omega, fun k g hk => ?_⟩
    cases k with
    | zero =>
      cases hk
      refine ⟨rfl, fun cls' triples' hBody' => ?_⟩
      cases hBody.symm.trans hBody'
      rw [hLater.getElem?_eq hNew, hBody₁]
      rfl
    | succ k =>
      rw [List.getElem?_cons_succ] at hk
      obtain ⟨hResult, hTriple⟩ := hEach k g hk
      rw [hSize, hCount, add_assoc, add_assoc, Nat.add_comm 1 k] at hResult hTriple
      refine ⟨by rw [List.getElem?_cons_succ, hResult], fun cls' triples' hBody' => ?_⟩
      exact hTriple cls' triples' ((hSame (List.mem_of_getElem? hk)).trans hBody')

end EvaluatesAll

end Action

end PerformanceEstimation
