import Openlia.Lib.FileTree
import Openlia.Policy.Permissions

/-! # Workspace targets

How the plugin turns the path of a tool call into a place of the workspace: the
path is expanded, resolved through every link and cut off at the workspace root.
-/

namespace Openlia.Policy

open Lib

abbrev Text := List Char
abbrev Name := List Char

/-- `str.isspace`, which is also `\s`. -/
def isSpace (c : Char) : Bool :=
  let n := c.toNat
  (9 ≤ n && n ≤ 13) || (28 ≤ n && n ≤ 32) || n = 0x85 || n = 0xA0 || n = 0x1680 ||
    (0x2000 ≤ n && n ≤ 0x200A) || n = 0x2028 || n = 0x2029 || n = 0x202F || n = 0x205F || n = 0x3000

/-- `str.strip`. -/
def strip (s : Text) : Text := ((s.dropWhile isSpace).reverse.dropWhile isSpace).reverse

/-- A path as text is taken apart; empty components and `.` say nothing. -/
structure PurePath where
  absolute : Bool
  parts : List Name
  deriving DecidableEq, Repr

/-- `Path(raw)`. -/
def PurePath.parse (raw : Text) : PurePath :=
  ⟨raw.head? = some '/', (splitSlash raw).filter fun part => part ≠ [] && part ≠ ['.']⟩

/-- What the plugin's process sees of the machine. -/
structure Host (α : Type) where
  tree : Tree Name α
  /-- Where the links of the tree lead. -/
  readlink : List Name → PurePath
  /-- Links nested deeper than this are a loop. -/
  depth : Nat
  /-- What `~` or `~user` stands for, where it stands for anything. -/
  home : Name → Option PurePath
  workspaceRoot : List Name

inductive PathError where
  | noHome
  | symlinkLoop
  | embeddedNull
  deriving DecidableEq, Repr

/-! ## Resolution -/

section Resolution

variable (linkAt : List Name → Option PurePath)

/-- One component: a link is replaced by the place it leads to. -/
def realpathStep (follow : List Name → List Name → Except PathError (List Name))
    (path : List Name) (name : Name) : Except PathError (List Name) :=
  if name = ['.', '.'] then .ok path.dropLast
  else if name.contains '\x00' then .error .embeddedNull
  else match linkAt (path ++ [name]) with
    | none => .ok (path ++ [name])
    | some target => follow (if target.absolute then [] else path) target.parts

/-- `os.path.realpath` from a resolved path on. -/
def realpath : Nat → List Name → List Name → Except PathError (List Name)
  | 0 => fun path rest => rest.foldlM (realpathStep linkAt fun _ _ => .error .symlinkLoop) path
  | depth + 1 => fun path rest => rest.foldlM (realpathStep linkAt (realpath depth)) path

end Resolution

/-- No link on the way to a path. -/
def NoLinks (linkAt : List Name → Option PurePath) (path : List Name) : Prop :=
  ∀ q, q <+: path → linkAt q = none

section

variable {linkAt : List Name → Option PurePath}

theorem NoLinks.dropLast {path : List Name} (h : NoLinks linkAt path) :
    NoLinks linkAt path.dropLast := by
  intro q hq
  exact h q (hq.trans (List.dropLast_prefix path))

theorem NoLinks.append_singleton {path : List Name} {name : Name} (h : NoLinks linkAt path)
    (hl : linkAt (path ++ [name]) = none) : NoLinks linkAt (path ++ [name]) := by
  intro q hq
  rcases List.prefix_concat_iff.mp hq with rfl | hq
  · exact hl
  · exact h q hq

theorem NoLinks.nil (hroot : linkAt [] = none) : NoLinks linkAt [] := by
  intro q hq
  rw [List.prefix_nil.mp hq]
  exact hroot

/-- A step that follows links to places without links ends at one. -/
theorem realpathStep_noLinks {follow : List Name → List Name → Except PathError (List Name)}
    (hroot : linkAt [] = none)
    (hf : ∀ path rest p, NoLinks linkAt path → follow path rest = .ok p → NoLinks linkAt p)
    {path p : List Name} {name : Name} (hpath : NoLinks linkAt path)
    (h : realpathStep linkAt follow path name = .ok p) : NoLinks linkAt p := by
  unfold realpathStep at h
  split at h
  · cases h
    exact hpath.dropLast
  · split at h
    · cases h
    · split at h
      · rename_i hl
        cases h
        exact hpath.append_singleton hl
      · refine hf _ _ _ ?_ h
        split
        · exact .nil hroot
        · exact hpath

theorem foldlM_noLinks {step : List Name → Name → Except PathError (List Name)}
    (hs : ∀ path name p, NoLinks linkAt path → step path name = .ok p → NoLinks linkAt p)
    {path p : List Name} {rest : List Name} (hpath : NoLinks linkAt path)
    (h : rest.foldlM step path = .ok p) : NoLinks linkAt p := by
  induction rest generalizing path with
  | nil =>
      cases h
      exact hpath
  | cons name rest ih =>
      rw [List.foldlM_cons] at h
      obtain ⟨path', h', h⟩ := except_bind_ok h
      exact ih (hs _ _ _ hpath h') h

/-- A resolved path leads through no link. -/
theorem realpath_noLinks (hroot : linkAt [] = none) {depth : Nat} {path rest p : List Name}
    (hpath : NoLinks linkAt path) (h : realpath linkAt depth path rest = .ok p) :
    NoLinks linkAt p := by
  induction depth generalizing path rest p with
  | zero =>
      refine foldlM_noLinks (fun path name p hp hs => ?_) hpath h
      exact realpathStep_noLinks hroot (fun _ _ _ _ hf => by cases hf) hp hs
  | succ depth ih =>
      refine foldlM_noLinks (fun path name p hp hs => ?_) hpath h
      exact realpathStep_noLinks hroot (fun _ _ _ => ih) hp hs

end

namespace Host

variable {α : Type} (h : Host α)

/-- Where the link at a path leads, when there is one. -/
def linkAt (path : List Name) : Option PurePath :=
  match h.tree.node path with
  | some .symlink => some (h.readlink path)
  | _ => none

/-- `expanduser`. -/
def expanduser (p : PurePath) : Except PathError PurePath :=
  match p.absolute, p.parts with
  | false, first :: rest =>
      if first.head? = some '~' then
        match h.home first with
        | none => .error .noHome
        | some home => .ok ⟨home.absolute, home.parts ++ rest⟩
      else .ok p
  | _, _ => .ok p

/-- The place a path leads to, from the workspace root when it is relative. -/
def resolve (p : PurePath) : Except PathError (List Name) :=
  realpath h.linkAt h.depth [] (if p.absolute then p.parts else h.workspaceRoot ++ p.parts)

/-- The place a path leads to as text. -/
def locate (raw : Text) : Except PathError (List Name) := do
  let p ← h.expanduser (.parse raw)
  h.resolve p

/-- `relative_to(workspace_root)`; the root itself is no target. -/
def relative (path : List Name) : Option (List Name) :=
  if h.workspaceRoot <+: path ∧ path ≠ h.workspaceRoot then
    some (path.drop h.workspaceRoot.length)
  else none

/-- A symbolic link on the way from the root. -/
def symlinkAlong (relative : List Name) : Bool :=
  (List.range relative.length).any fun i =>
    (h.linkAt (h.workspaceRoot ++ relative.take (i + 1))).isSome

/-- `_safe_workspace_target`: the path below the root, and whether something is there. -/
def safeWorkspaceTarget (raw : Text) : Except PathError (Option (List Name × Bool)) := do
  if strip raw = [] then
    return none
  let candidate ← h.expanduser (.parse raw)
  match h.resolve candidate with
  | .error .embeddedNull => pure none
  | .error e => .error e
  | .ok resolved =>
      match h.relative resolved with
      | none => pure none
      | some relative =>
          if h.symlinkAlong relative then pure none
          else pure (some (relative, (h.tree.node resolved).isSome))

variable {h}

theorem resolve_noLinks {p : PurePath} {path : List Name} (hr : h.resolve p = .ok path) :
    NoLinks h.linkAt path :=
  realpath_noLinks rfl (.nil rfl) hr

/-- A target is where its path leads. -/
theorem safeWorkspaceTarget_ok {raw : Text} {relative : List Name} {found : Bool}
    (ht : h.safeWorkspaceTarget raw = .ok (some (relative, found))) :
    ∃ path, h.locate raw = .ok path ∧ h.relative path = some relative ∧
      found = (h.tree.node path).isSome := by
  unfold safeWorkspaceTarget at ht
  split at ht
  · cases ht
  · obtain ⟨candidate, hc, ht⟩ := except_bind_ok ht
    cases hr : h.resolve candidate with
    | error e =>
        rw [hr] at ht
        cases e <;> cases ht
    | ok resolved =>
        simp only [hr] at ht
        cases hrel : h.relative resolved with
        | none =>
            rw [hrel] at ht
            cases ht
        | some rel =>
            simp only [hrel] at ht
            split at ht
            · cases ht
            · cases ht
              refine ⟨resolved, ?_, hrel, rfl⟩
              rw [locate, hc]
              exact hr

/-- What resolves depends on the links alone. -/
theorem locate_congr {h' : Host α} (hl : h'.linkAt = h.linkAt) (hd : h'.depth = h.depth)
    (hh : h'.home = h.home) (hw : h'.workspaceRoot = h.workspaceRoot) (raw : Text) :
    h'.locate raw = h.locate raw := by
  simp only [locate, expanduser, resolve, hl, hd, hh, hw]

theorem locate_noLinks {raw : Text} {path : List Name} (hr : h.locate raw = .ok path) :
    h.linkAt path = none := by
  obtain ⟨p, -, hr⟩ := except_bind_ok hr
  exact resolve_noLinks hr path (List.prefix_refl _)

end Host

/-! ## Kinds of places -/

/-- `"/".join(parts)`. -/
def relativeText (parts : List Name) : Text := List.intercalate ['/'] parts

/-- `_is_minion_path`. -/
def isMinionPath : List Name → Bool
  | root :: slug :: _ => root = "minions".toList && isName slug
  | _ => false

def protectedRootFiles : List String :=
  ["README.md", "AGENTS.md", "SOUL.md", "IDENTITY.md", "DREAMS.md", "feature.schema.json",
    "permissions.yaml", "workspace.yaml", "workspace.schema.json", "assistant-policy.yaml",
    "assistant-policy.schema.json", "sources/document-passwords.toml"]

def protectedBasenames : List String := ["AGENTS.md", "SOUL.md", "IDENTITY.md", "DREAMS.md"]

def isProtectedBasename (parts : List Name) : Bool :=
  protectedBasenames.any fun name => parts.getLast? = some name.toList

/-- `_is_protected_workspace_path`. -/
def isProtectedWorkspacePath (parts : List Name) : Bool :=
  if protectedRootFiles.any fun file => relativeText parts = file.toList then true
  else if isMinionPath parts then
    (parts.any fun part => part.head? = some '.' && part ≠ ".venv".toList) ||
      isProtectedBasename parts
  else (parts.any fun part => part.head? = some '.') || isProtectedBasename parts

/-- `_within` a destination. -/
def within (parts : List Name) (destination : String) : Bool :=
  let parent := splitSlash destination.toList
  let plain := fun part : Name => part ≠ [] && part ≠ ['.'] && part ≠ ['.', '.']
  (parts ++ parent).all plain && parent.isPrefixOf parts

end Openlia.Policy
