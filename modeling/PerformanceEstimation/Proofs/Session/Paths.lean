import Mathlib
import PerformanceEstimation.Proofs.Session.Leaves

/-!
# Paths to leaves

A sum of sums reaches each of its leaves by one or more paths. `Session.paths` lists them in the
order in which an oracle comes to the leaves, each with the weights along it. New triples change no
path, and the leaves at the ends are exactly those that the function reaches (`mem_leaves_iff`).
-/

set_option autoImplicit false

namespace PerformanceEstimation.Session

variable {α : Type}

/-- The paths from a function to its leaves, with the weights along them. -/
def paths (s : Session α) (f : FunctionId) : List (FunctionId × List α) :=
  match s.functions[f.pos]? with
  | none => []
  | some (.leaf _ _) => [(f, [])]
  | some (.sum terms) =>
    terms.flatMap fun (t, w) =>
      if _h : t.pos < f.pos then (s.paths t).map fun (leaf, ws) => (leaf, w :: ws) else []
termination_by f.pos

def leaves (s : Session α) (f : FunctionId) : List FunctionId :=
  ((s.paths f).map (·.1)).dedup

def termPaths (s : Session α) (f : FunctionId) (term : FunctionId × α) :
    List (FunctionId × List α) :=
  if term.1.pos < f.pos then (s.paths term.1).map fun (leaf, ws) => (leaf, term.2 :: ws) else []

variable {s s' : Session α} {f : FunctionId}

theorem paths_of_none (h : s.functions[f.pos]? = none) : s.paths f = [] := by
  rw [paths]
  simp only [h]

theorem paths_leaf {cls : FunctionClass α} {triples : List (Triple α)}
    (hLeaf : s.functions[f.pos]? = some (.leaf cls triples)) : s.paths f = [(f, [])] := by
  rw [paths]
  simp only [hLeaf]

theorem paths_sum {terms : List (FunctionId × α)}
    (hSum : s.functions[f.pos]? = some (.sum terms)) :
    s.paths f = terms.flatMap (s.termPaths f) := by
  rw [paths]
  simp only [hSum]
  rfl

theorem exists_term_of_mem_paths {terms : List (FunctionId × α)}
    (hSum : s.functions[f.pos]? = some (.sum terms)) {path : FunctionId × List α}
    (h : path ∈ s.paths f) : ∃ term ∈ terms, term.1.pos < f.pos ∧
      ∃ ws, (path.1, ws) ∈ s.paths term.1 ∧ path.2 = term.2 :: ws := by
  rw [paths_sum hSum] at h
  obtain ⟨term, hTerm, hPath⟩ := List.mem_flatMap.mp h
  unfold termPaths at hPath
  split at hPath
  · rename_i hLess
    obtain ⟨⟨leaf, ws⟩, hRest, rfl⟩ := List.mem_map.mp hPath
    exact ⟨term, hTerm, hLess, ws, hRest, rfl⟩
  · cases hPath

theorem reaches_of_mem_paths {path : FunctionId × List α} (h : path ∈ s.paths f) :
    s.Reaches f path.1 ∧ s.IsLeaf path.1 := by
  induction hPos : f.pos using Nat.strongRecOn generalizing f path with
  | ind pos ih =>
    cases hBody : s.functions[f.pos]? with
    | none =>
      rw [paths_of_none hBody] at h
      cases h
    | some body =>
      cases body with
      | leaf cls triples =>
        rw [paths_leaf hBody] at h
        rw [List.mem_singleton.mp h]
        exact ⟨.refl f, cls, triples, hBody⟩
      | sum terms =>
        obtain ⟨term, hTerm, hLess, ws, hRest, -⟩ := exists_term_of_mem_paths hBody h
        obtain ⟨hReaches, hLeaf⟩ := ih _ (hPos ▸ hLess) hRest rfl
        exact ⟨.term hBody hTerm hReaches, hLeaf⟩

theorem isLeaf_of_mem_map_paths (s : Session α) (f : FunctionId) :
    ∀ leaf ∈ (s.paths f).map (·.1), s.IsLeaf leaf := by
  intro leaf hLeaf
  obtain ⟨path, hPath, rfl⟩ := List.mem_map.mp hLeaf
  exact (reaches_of_mem_paths hPath).2

theorem exists_mem_paths [Scalar α] (hs : s.WellFormed) {leaf : FunctionId}
    (h : s.Reaches f leaf) (hLeaf : s.IsLeaf leaf) : ∃ ws, (leaf, ws) ∈ s.paths f := by
  induction h with
  | refl f =>
    obtain ⟨cls, triples, hBody⟩ := hLeaf
    rw [paths_leaf hBody]
    exact ⟨[], List.mem_singleton_self _⟩
  | @term f leaf terms term hSum hTerm _ ih =>
    obtain ⟨ws, hRest⟩ := ih hLeaf
    have hLess := ((hs.sums hSum).2 term hTerm).1
    rw [paths_sum hSum]
    refine ⟨term.2 :: ws, List.mem_flatMap.mpr ⟨term, hTerm, ?_⟩⟩
    rw [termPaths, if_pos hLess]
    exact List.mem_map.mpr ⟨(leaf, ws), hRest, rfl⟩

theorem mem_leaves_iff [Scalar α] (hs : s.WellFormed) {leaf : FunctionId} :
    leaf ∈ s.leaves f ↔ s.Reaches f leaf ∧ s.IsLeaf leaf := by
  rw [leaves, List.mem_dedup, List.mem_map]
  constructor
  · rintro ⟨path, hPath, rfl⟩
    exact reaches_of_mem_paths hPath
  · rintro ⟨hReaches, hLeaf⟩
    obtain ⟨ws, hPath⟩ := exists_mem_paths hs hReaches hLeaf
    exact ⟨(leaf, ws), hPath, rfl⟩

theorem GrowsAt.paths_eq {x : Point α} {fs : List FunctionId} (h : GrowsAt x fs s s')
    (f : FunctionId) : s'.paths f = s.paths f := by
  induction hPos : f.pos using Nat.strongRecOn generalizing f with
  | ind pos ih =>
    cases hBody : s.functions[f.pos]? with
    | none =>
      have hBody' : s'.functions[f.pos]? = none := by
        rw [List.getElem?_eq_none_iff] at hBody ⊢
        exact h.length.trans_le hBody
      rw [paths_of_none hBody, paths_of_none hBody']
    | some body =>
      cases body with
      | leaf cls triples =>
        obtain ⟨added, hBody', -⟩ := h.leaf hBody
        rw [paths_leaf hBody, paths_leaf hBody']
      | sum terms =>
        rw [paths_sum hBody, paths_sum (h.sum hBody)]
        refine congrArg (fun next => terms.flatMap next) (funext fun term => ?_)
        unfold termPaths
        split
        · rename_i hLess
          rw [ih _ (hPos ▸ hLess) _ rfl]
        · rfl

theorem GrowsAt.termPaths_eq {x : Point α} {fs : List FunctionId} (h : GrowsAt x fs s s')
    (f : FunctionId) : s'.termPaths f = s.termPaths f := by
  funext term
  rw [termPaths, termPaths, h.paths_eq]

end PerformanceEstimation.Session
