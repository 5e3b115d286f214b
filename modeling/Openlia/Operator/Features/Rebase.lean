import Openlia.Operator.Skills.RebaseInstalled

/-! # Rebasing an installed feature

The files of a feature in the workspace are merged with its two bases, and the
merged files are written over the workspace one after another. Then the feature
is installed again: the required features and the feature itself seed the files
that the workspace does not have.
-/

namespace Openlia.Features

open Lib Skills

/-- Directories and regular files only. -/
abbrev PlainDir := { t : Dir // Plain t }

/-- The files of a directory, as `filepath.Walk` and `filepath.WalkDir` come to them. -/
def walkedFiles (t : Dir) : List Path := (walkedPaths t).filter fun p => (fileAt t p).isSome

/-! ## Seeding -/

def isGitkeep (p : Path) : Bool := p.getLast?.any fun c => c.1 = ".gitkeep"

def EnsureDir (ws : Dir) (p : Path) : Except String Dir :=
  match ws.mkdirAll p with
  | .error e => .error ("create directory: " ++ e.text)
  | .ok ws => .ok ws

def copyOnce (ws : Dir) (p : Path) (data : Bytes) : Except String Dir :=
  match ws.lstat p with
  | .ok _ => .ok ws
  | .error .notExist =>
      match ws.writeFile p (.regular data) with
      | .error e => .error ("activate atomic file: " ++ e.text)
      | .ok ws => .ok ws
  | .error e => .error e.text

/-- What the walk does at one file. -/
def seedFile (tree ws : Dir) (p : Path) : Except String Dir :=
  match EnsureDir ws p.dropLast with
  | .error e => .error e
  | .ok ws =>
      if isGitkeep p = true then .ok ws
      else match fileAt tree p with
        | none => .ok ws
        | some data => copyOnce ws p data

def seedFeatureWorkspaceFiles (tree ws : Dir) : Except String Dir :=
  (walkedFiles tree).foldlM (seedFile tree) ws

/-! ## Installing -/

/-- What the installation of a feature reads: its `workspace` directory, its domains, and the
error of the steps that do not touch the workspace. -/
structure Package where
  workspace : Option PlainDir
  domains : List Path
  others : Option String

def seedPackage (ws : Dir) (pkg : Package) : Except String Dir :=
  match pkg.workspace with
  | none => .ok ws
  | some tree =>
      match seedFeatureWorkspaceFiles tree.1 ws with
      | .error e => .error ("seed feature workspace files: " ++ e)
      | .ok ws => .ok ws

def installPackage (ws : Dir) (pkg : Package) : Except String Dir :=
  match seedPackage ws pkg with
  | .error e => .error e
  | .ok ws =>
      match pkg.domains.foldlM EnsureDir ws with
      | .error e => .error e
      | .ok ws =>
          match pkg.others with
          | some e => .error e
          | none => .ok ws

/-- `required` are the features that the required ones bring, in the order in which they are
installed. -/
def installFeatureFromDir (required : List Package) (pkg : Package) (ws : Dir) :
    Except String Dir :=
  (required ++ [pkg]).foldlM installPackage ws

/-! ## Merging -/

/-- The files of the bases as the workspace has them; a write that fails is passed over. -/
def copyCurrent (ws : Dir) : Dir → List Path → Dir
  | t, [] => t
  | t, p :: rest =>
      match fileAt ws p with
      | none => copyCurrent ws t rest
      | some data =>
          match writeMergedFile t p data with
          | .error _ => copyCurrent ws t rest
          | .ok t => copyCurrent ws t rest

def tmpCurrent (old new ws : Dir) : Dir :=
  copyCurrent ws .empty (walkedFiles old ++ walkedFiles new)

/-- The merged files are written until a write fails; its error is dropped. -/
def writeMerged (merged : Dir) : Dir → List Path → Dir
  | ws, [] => ws
  | ws, p :: rest =>
      match fileAt merged p with
      | none => writeMerged merged ws rest
      | some data =>
          match writeMergedFile ws p data with
          | .error _ => ws
          | .ok ws => writeMerged merged ws rest

/-- The rebase of the workspace files. -/
def rebaseWorkspace (sha256 : Bytes → String) (oldBase newBase : Option PlainDir) (ws : Dir) :
    Except String (RebaseResult × Dir) :=
  match newBase with
  | none => .ok (⟨"fast-forward", false, []⟩, ws)
  | some new =>
      match oldBase with
      | none =>
          match seedFeatureWorkspaceFiles new.1 ws with
          | .error e => .error e
          | .ok ws => .ok (⟨"fast-forward", false, []⟩, ws)
      | some old =>
          match RebaseDirectoryThreeWay old.1 (tmpCurrent old.1 new.1 ws) new.1 sha256 with
          | .error e => .error e
          | .ok (forked, conflicts, merged) =>
              if conflicts = [] then
                .ok (⟨if forked then "merged" else "fast-forward", forked, []⟩,
                  writeMerged merged ws (walkedFiles merged))
              else .ok (⟨"conflict", forked, conflicts⟩, ws)

/-- The result of a bundled skill counts when its rebase returns no error. -/
def addSkill (r : RebaseResult) : Except String RebaseResult → RebaseResult
  | .error _ => r
  | .ok sk =>
      if sk.Status = "conflict" then
        ⟨"conflict", r.AutoForked || sk.AutoForked, r.Conflicts ++ sk.Conflicts⟩
      else if sk.Status = "merged" ∧ r.Status ≠ "conflict" then
        ⟨"merged", r.AutoForked || sk.AutoForked, r.Conflicts⟩
      else ⟨r.Status, r.AutoForked || sk.AutoForked, r.Conflicts⟩

/-- The result and the workspace after the rebase. `before` is the error of the checks that
come first, `skills` what the rebase of each bundled skill returns. -/
def RebaseInstalledFeature (sha256 : Bytes → String) (before : Option String)
    (oldBase : Option PlainDir) (skills : List (Except String RebaseResult))
    (required : List Package) (pkg : Package) (ws : PlainDir) :
    Except String (RebaseResult × Dir) :=
  match before with
  | some e => .error e
  | none =>
      match rebaseWorkspace sha256 oldBase pkg.workspace ws.1 with
      | .error e => .error e
      | .ok (merged, ws) =>
          let r := skills.foldl addSkill merged
          if r.Status = "conflict" then .ok (r, ws)
          else match installFeatureFromDir required pkg ws with
            | .error e => .error e
            | .ok ws => .ok (r, ws)

end Openlia.Features
