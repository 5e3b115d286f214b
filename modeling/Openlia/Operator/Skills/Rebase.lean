import Openlia.Lib.ThreeWay
import Openlia.Operator.Skills.Overlay

/-! # Rebasing a directory

The old base, the current directory and the new base are merged file by file.
What a path becomes is chosen by a switch over its three files; the rest of the
work is writing the chosen files below an empty directory.
-/

namespace Openlia.Skills

open Lib

/-! ## The files of a directory -/

/-- No directory above the path holds dependencies or a cache. -/
def Collected (p : Path) : Prop :=
  ∀ c ∈ p.dropLast, c.1 ≠ "__pycache__" ∧ c.1 ≠ "node_modules"

instance : DecidablePred Collected := fun p =>
  inferInstanceAs (Decidable (∀ c ∈ p.dropLast, c.1 ≠ "__pycache__" ∧ c.1 ≠ "node_modules"))

def collectedFile (t : Dir) (p : Path) : Option Bytes := if Collected p then fileAt t p else none

def collectRelativeFiles (t : Dir) : List Path :=
  (sortedPaths t).filter fun p => (collectedFile t p).isSome

def allPaths (oldFiles curFiles newFiles : List Path) : List Path :=
  (oldFiles ++ curFiles.filter (fun p => decide (p ∉ oldFiles)) ++
    newFiles.filter fun p => decide (p ∉ oldFiles ∧ p ∉ curFiles)).mergeSort byName

/-! ## Merging one file -/

def newline : UInt8 := 10

/-- The loop over the lines; the lists have the same length. -/
def mergeLines : List Bytes → List Bytes → List Bytes → Except String (List Bytes)
  | base :: bases, loc :: locals, upstream :: upstreams =>
      if loc = base then (mergeLines bases locals upstreams).map (upstream :: ·)
      else if upstream = base ∨ loc = upstream then
        (mergeLines bases locals upstreams).map (loc :: ·)
      else .error "instruction merge has overlapping changes"
  | _, _, _ => .ok []

def mergeInstructionLines (base loc upstream : Bytes) : Except String Bytes :=
  if loc = base then .ok upstream
  else if upstream = base ∨ loc = upstream then .ok loc
  else
    let baseLines := base.splitOn newline
    let localLines := loc.splitOn newline
    let upstreamLines := upstream.splitOn newline
    if baseLines.length = localLines.length ∧ baseLines.length = upstreamLines.length then
      (mergeLines baseLines localLines upstreamLines).map (List.intercalate [newline])
    else .error "instruction merge requires manual review for structural changes"

/-- The switch over the three files of a path; `none` is a conflict. -/
def choose (old cur new : Option Bytes) : Option (Option Bytes) :=
  if old.isSome ∧ cur.isSome ∧ old = cur then some new
  else if old.isSome ∧ new.isSome ∧ old = new then some cur
  else if cur.isSome ∧ new.isSome ∧ cur = new then some cur
  else match old, cur, new with
    | none, some c, none => some (some c)
    | none, none, some n => some (some n)
    | some o, some c, some n =>
        match mergeInstructionLines o c n with
        | .ok merged => some (some merged)
        | .error _ => none
    -- deleted on one side and changed on the other, added on both, deleted on both
    | _, _, _ => none

/-! ## Merging a directory -/

def writeMergedFile (t : Dir) (p : Path) (data : Bytes) : Except String Dir :=
  match t.mkdirAll p.dropLast with
  | .error e => .error ("create directory: " ++ e.text)
  | .ok t =>
      match t.writeFile p (.regular data) with
      | .error e => .error ("activate atomic file: " ++ e.text)
      | .ok t => .ok t

section Trees

variable (old cur new : Dir)

/-- What a path becomes. -/
def chosen (p : Path) : Option (Option Bytes) :=
  choose (collectedFile old p) (collectedFile cur p) (collectedFile new p)

def rebasePaths : Dir → List String → List Path → Except String (Dir × List String)
  | t, conflicts, [] => .ok (t, conflicts)
  | t, conflicts, p :: rest =>
      match chosen old cur new p with
      | none => rebasePaths t (conflicts ++ [relPath p]) rest
      | some none => rebasePaths t conflicts rest
      | some (some data) =>
          match writeMergedFile t p data with
          | .error e => .error e
          | .ok t => rebasePaths t conflicts rest

def rebasedPaths : List Path :=
  allPaths (collectRelativeFiles old) (collectRelativeFiles cur) (collectRelativeFiles new)

/-- Whether the current directory was changed, the conflicts, and the merged directory. -/
def RebaseDirectoryThreeWay (sha256 : Bytes → String) :
    Except String (Bool × List String × Dir) :=
  let oldHash := DirectorySHA256 sha256 old
  let curHash := DirectorySHA256 sha256 cur
  let newHash := DirectorySHA256 sha256 new
  if curHash = oldHash ∨ curHash = newHash then .ok (decide (curHash ≠ oldHash), [], new)
  else match rebasePaths old cur new .empty [] (rebasedPaths old cur new) with
    | .error e => .error e
    | .ok (t, conflicts) => .ok (true, conflicts, t)

end Trees

/-! ## The reference merge -/

/-- The merge of the lines of three texts. -/
def textMerge (o c n : Bytes) : Option Bytes :=
  (ThreeWay.lines (o.splitOn newline) (c.splitOn newline) (n.splitOn newline)).map
    (List.intercalate [newline])

/-- What a path is to become: a file or nothing, or a conflict. -/
def referenceMerge (old cur new : Dir) (p : Path) : Option (Option Bytes) :=
  ThreeWay.file textMerge (fileAt old p) (fileAt cur p) (fileAt new p)

theorem textMerge_comm (o c n : Bytes) : textMerge o c n = textMerge o n c := by
  rw [textMerge, textMerge, ThreeWay.lines_comm]

theorem splitOn_inj {s s' : Bytes} (h : s.splitOn newline = s'.splitOn newline) : s = s' := by
  have := congrArg (List.intercalate [newline]) h
  rwa [List.intercalate_splitOn, List.intercalate_splitOn] at this

/-- No line holds a line break. -/
theorem newline_notMem {s l : Bytes} (h : l ∈ s.splitOn newline) : newline ∉ l :=
  (of_mem_splitOn h).1

/-- The merged lines are the lines of the merged text. -/
theorem splitOn_textMerge {o c n m : Bytes} (h : textMerge o c n = some m) :
    ThreeWay.lines (o.splitOn newline) (c.splitOn newline) (n.splitOn newline) =
      some (m.splitOn newline) := by
  obtain ⟨l, hl, rfl⟩ := Option.map_eq_some_iff.mp h
  rw [hl, List.splitOn_intercalate]
  · intro x hx
    exact (ThreeWay.mem_of_lines hl hx).elim newline_notMem newline_notMem
  · intro hnil
    have hlen := (ThreeWay.length_of_lines hl).1
    rw [hnil, List.length_nil] at hlen
    exact List.splitOn_ne_nil newline o (List.length_eq_zero_iff.mp hlen.symm)

theorem textMerge_idem {o c n m : Bytes} (h : textMerge o c n = some m) :
    textMerge o m n = some m := by
  rw [textMerge, ThreeWay.lines_idem (splitOn_textMerge h), Option.map_some,
    List.intercalate_splitOn]

end Openlia.Skills
