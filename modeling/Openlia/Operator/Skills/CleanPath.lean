import Openlia.Operator.Skills.Trees

/-! # Clean paths

`filepath.Clean` and the way from a clean slash-separated path to its components.
-/

namespace Openlia.Skills

/-- One element of a relative path in `filepath.Clean`. -/
def cleanStep (out : List (List Char)) (c : List Char) : List (List Char) :=
  if c = [] ∨ c = ['.'] then out
  else if c = ['.', '.'] ∧ out ≠ [] ∧ out.getLast? ≠ some ['.', '.'] then out.dropLast
  else out ++ [c]

/-- `filepath.Clean` of a path that is not absolute. -/
def filepathClean (path : List Char) : List Char :=
  match (path.splitOn '/').foldl cleanStep [] with
  | [] => ['.']
  | out => List.intercalate ['/'] out

def fileName (s : List Char) : Option FileName :=
  if h : String.ofList s ≠ "" ∧ String.ofList s ≠ "." ∧ String.ofList s ≠ ".." ∧
      '/' ∉ (String.ofList s).toList ∧ '\x00' ∉ (String.ofList s).toList then
    some ⟨String.ofList s, h⟩
  else none

/-- The components of a clean path. -/
def pathOf (path : String) : Option Path := (path.toList.splitOn '/').mapM fileName

theorem cleanStep_name (out : List (List Char)) (c : FileName) :
    cleanStep out c.1.toList = out ++ [c.1.toList] := by
  have hdot : c.1.toList ≠ ['.'] := fun h => c.2.2.1 (String.toList_injective h)
  have hdots : c.1.toList ≠ ['.', '.'] := fun h => c.2.2.2.1 (String.toList_injective h)
  simp [cleanStep, c.toList_ne_nil, hdot, hdots]

theorem foldl_cleanStep_names (p : Path) (out : List (List Char)) :
    (p.map fun c => c.1.toList).foldl cleanStep out = out ++ p.map fun c => c.1.toList := by
  induction p generalizing out with
  | nil => simp
  | cons c p ih =>
      rw [List.map_cons, List.foldl_cons, cleanStep_name, ih]
      simp

theorem filepathClean_pathText {p : Path} (hp : p ≠ []) :
    filepathClean (pathText p) = pathText p := by
  rw [filepathClean, splitOn_pathText hp, foldl_cleanStep_names, List.nil_append]
  split
  · rename_i h
    exact absurd (List.map_eq_nil_iff.mp h) hp
  · rfl

/-- A part between two slashes, or before the first. -/
theorem mem_of_splitOn {p : Path} {s : List Char} (hp : p ≠ [])
    (h : s ∈ (pathText p).splitOn '/') : ∃ c ∈ p, c.1.toList = s := by
  rw [splitOn_pathText hp] at h
  exact List.mem_map.mp h

theorem dots_notMem {p : Path} (hp : p ≠ []) : ['.', '.'] ∉ (pathText p).splitOn '/' := by
  intro h
  obtain ⟨c, -, hc⟩ := mem_of_splitOn hp h
  exact c.2.2.2.1 (String.toList_injective hc)

theorem splitOn_singleton {s : List Char} (h : '/' ∉ s) : s.splitOn '/' = [s] :=
  List.splitOn_eq_singleton h

theorem pathOf_relPath {p : Path} (hp : p ≠ []) : pathOf (relPath p) = some p := by
  have hname : ∀ c : FileName, fileName c.1.toList = some c := by
    intro c
    have hc : String.ofList c.1.toList = c.1 := String.ofList_toList
    rw [fileName, dif_pos (by rw [hc]; exact c.2)]
    exact congrArg some (Subtype.ext hc)
  rw [pathOf, relPath, String.toList_ofList, splitOn_pathText hp, List.mapM_map]
  induction p with
  | nil => rfl
  | cons c p ih =>
      rw [List.mapM_cons, Function.comp_apply, hname]
      by_cases hnil : p = []
      · subst hnil
        rfl
      · simp [ih hnil]

end Openlia.Skills
