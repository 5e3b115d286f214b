import Openlia.Lib.Namei
import Openlia.Workspace.Service

/-! # The files of a skill

A skill is a directory of the skills directory or of its disabled copies. Its files
are read and written by relative paths, whose directories the system follows through
links. A written file is made beside the target, which it then replaces.
-/

namespace Openlia.SkillService

open Lib
open Browser (trim)
open Workspace (Bytes Runtime WorkspaceError refusal splitSlash replaceAll startsWith jsLength
  fileExtension protectedPath utf8 decodeFatal revision systemError)

/-! ## The disk -/

/-- An entry that is no directory. -/
inductive Entry where
  | regular (bytes : Bytes)
  | link (dest : Target String)
  | special
  deriving DecidableEq

abbrev Disk := Tree String Entry

def Entry.target : Entry → Option (Target String)
  | .link dest => some dest
  | .regular _ | .special => none

/-- Where a path of names leads. -/
def real (disk : Disk) (p : List String) : Except Errno (List String) :=
  disk.walk Entry.target 40 [] (p.map .name)

def existsSync (disk : Disk) (p : List String) : Bool :=
  match real disk p with
  | .ok _ => true
  | .error _ => false

/-- `lstatSync` of a name in a directory. -/
def lstatSync (disk : Disk) (parent : List String) (name : String) : Option (Node Entry) :=
  match real disk parent with
  | .ok d => disk.node (d ++ [name])
  | .error _ => none

/-- `mkdirSync` with `recursive`: what is there must lead to a directory, the rest is made. -/
def mkdirFrom (disk : Disk) (above : List String) : List String → Except Errno Disk
  | [] => .ok disk
  | c :: rest =>
      match real disk (above ++ [c]) with
      | .ok d => if disk.isDir d then mkdirFrom disk (above ++ [c]) rest else .error .notDir
      | .error e =>
          match real disk above with
          | .error e => .error e
          | .ok d =>
              match disk.node (d ++ [c]) with
              | some _ => .error e
              | none =>
                  match disk.put (d ++ [c]) .dir with
                  | .error e => .error e
                  | .ok disk => mkdirFrom disk (above ++ [c]) rest

def mkdirSync (disk : Disk) (p : List String) : Except Errno Disk := mkdirFrom disk [] p

/-! ## Requests -/

structure SkillServiceOptions where
  skillsRoot : List String
  maxEditableBytes : Nat

def invalidPath : WorkspaceError := refusal "invalid skill file path" 400 "invalid_path"

def idCharacter (c : Char) : Bool :=
  ('a' ≤ c && c ≤ 'z') || ('A' ≤ c && c ≤ 'Z') || ('0' ≤ c && c ≤ '9') || c = '_' || c = '-'

/-- A value that is no string is `none`. -/
def validateSkillId (id : Option String) : Except WorkspaceError String :=
  match id with
  | none => .error (refusal "invalid skill identifier" 400 "invalid_skill_id")
  | some id =>
      if trim id = "" then .error (refusal "invalid skill identifier" 400 "invalid_skill_id")
      else
        let normalized := trim (replaceAll id '\\' '/')
        let parts := splitSlash normalized
        if 2 < parts.length ∨ parts.any (fun p => p == "" || !p.toList.all idCharacter) then
          .error (refusal "invalid skill identifier format" 400 "invalid_skill_id")
        else .ok normalized

section Service

variable (rt : Runtime) (options : SkillServiceOptions)

def validateSkillFilePath (pathValue : Option String) : Except WorkspaceError String :=
  match pathValue with
  | none => .error invalidPath
  | some path =>
      if path = "" ∨ 1024 < jsLength path ∨ path.toList.contains '\x00' then .error invalidPath
      else if startsWith path "/" ∨ path.toList.contains '\\' then .error invalidPath
      else if (splitSlash path).any fun part => part == "" || part == "." || part == ".." then
        .error invalidPath
      else if protectedPath rt path then
        .error (refusal "skill file path is protected" 403 "protected_path")
      else .ok path

/-- The directory of the active skill, or of the disabled one. -/
def resolveSkillPath (disk : Disk) (id : String) : Except WorkspaceError (List String) :=
  let activePath := options.skillsRoot ++ splitSlash id
  let disabledPath := options.skillsRoot ++ ".openlia-disabled" :: splitSlash id
  if existsSync disk activePath then .ok activePath
  else if existsSync disk disabledPath then .ok disabledPath
  else .error (refusal "skill not found" 404 "skill_not_found")

/-- A file of a skill: the skill's directory, the file's directory and its name. -/
structure Located where
  absolute : List String
  parent : List String
  name : String
  deriving DecidableEq

def Located.target (l : Located) : List String := l.parent ++ [l.name]

/-- `resolve(absolute, relPath)`, which must lie below the skill's directory as it is spelled. -/
def locate (absolute : List String) (relPath : String) : Except WorkspaceError Located :=
  let parts := splitSlash relPath
  let l : Located := ⟨absolute, absolute ++ parts.dropLast, parts.getLast?.getD ""⟩
  if absolute <+: l.target ∧ absolute ≠ l.target then .ok l
  else .error (refusal "path is outside skill directory" 403 "invalid_path")

def symlinkNotAllowed : WorkspaceError := refusal "symlinks not supported" 403 "symlink_not_allowed"

def notAFile : WorkspaceError := refusal "target is not a file" 400 "not_a_file"

/-- The regular file that is found without following a link at the last name. -/
def regularFile (disk : Disk) (l : Located) : Except WorkspaceError Bytes :=
  match lstatSync disk l.parent l.name with
  | some (.file (.regular contents)) => .ok contents
  | some (.file (.link _)) | some .symlink => .error symlinkNotAllowed
  | some .dir | some (.file .special) => .error notAFile
  | none => .error (systemError "ENOENT")

/-! ## Reading -/

structure SkillFileResponse where
  content : String
  editable : Bool
  id : String
  path : String
  revision : String
  schema : Nat
  size : Nat

def editableExtensions : List String :=
  [".md", ".markdown", ".txt", ".yaml", ".yml", ".json", ".toml", ".py", ".sh", ".bash", ".js",
    ".ts", ".csv"]

/-- The text that is read from the contents. -/
def decodeContents (contents : Bytes) : Except WorkspaceError String :=
  if options.maxEditableBytes < contents.length then
    .error (refusal "file too large to edit" 413 "file_too_large")
  else if contents.contains 0 then
    .error (refusal "binary files are not editable" 415 "binary_file")
  else match decodeFatal contents with
    | none => .error (refusal "file is not valid UTF-8" 415 "invalid_utf8")
    | some text => .ok text

/-- What a request to read names. -/
def checkRead (idValue pathValue : Option String) (disk : Disk) :
    Except WorkspaceError (String × String × Located) := do
  let id ← validateSkillId idValue
  let relPath ← validateSkillFilePath rt pathValue
  let absolute ← resolveSkillPath options disk id
  let l ← locate absolute relPath
  .ok (id, relPath, l)

def readFile (idValue pathValue : Option String) (disk : Disk) :
    Except WorkspaceError SkillFileResponse :=
  match checkRead rt options idValue pathValue disk with
  | .error e => .error e
  | .ok (id, relPath, l) =>
      if existsSync disk l.target then
        match regularFile disk l with
        | .error e => .error e
        | .ok contents =>
            match decodeContents options contents with
            | .error e => .error e
            | .ok text => .ok ⟨text, editableExtensions.contains (fileExtension rt relPath), id,
                relPath, revision rt contents, 1, contents.length⟩
      else .error (refusal "skill file not found" 404 "not_found")

/-! ## Writing -/

structure SkillWriteResponse where
  id : String
  ok : Bool
  path : String
  revision : String
  schema : Nat
  size : Nat
  deriving DecidableEq

/-- The codes with which opening, writing and renaming the temporary file fail. -/
structure Faults where
  openSync : Option String
  writeSync : Option String
  renameSync : Option String

def encodeContent (contentValue : Option String) : Except WorkspaceError Bytes :=
  match contentValue with
  | none => .error (refusal "content must be a string" 400 "invalid_content")
  | some content =>
      let contents := utf8 content
      if options.maxEditableBytes < contents.length then
        .error (refusal "file is too large to edit" 413 "file_too_large")
      else if contents.contains 0 then
        .error (refusal "binary content is not editable" 415 "binary_content")
      else .ok contents

/-- What a request to write names. -/
def checkWrite (idValue pathValue contentValue : Option String) (disk : Disk) :
    Except WorkspaceError (String × String × Bytes × Located) := do
  let id ← validateSkillId idValue
  let relPath ← validateSkillFilePath rt pathValue
  let contents ← encodeContent options contentValue
  let absolute ← resolveSkillPath options disk id
  let l ← locate absolute relPath
  .ok (id, relPath, contents, l)

/-- The contents that the target has; a target that leads nowhere has none. -/
def currentContents (disk : Disk) (l : Located) : Except WorkspaceError Bytes :=
  if existsSync disk l.target then regularFile disk l else .ok []

def temporaryName (uuid : String) (l : Located) : String :=
  "." ++ l.name ++ ".openlia-" ++ uuid ++ ".tmp"

/-- `unlinkSync` of a file that is there. -/
def unlinkSync (disk : Disk) (p : List String) : Disk :=
  match disk.remove p with
  | .ok disk => disk
  | .error _ => disk

/-- The temporary file in the directory `d`, and the rename. -/
def replaceFile (faults : Faults) (d : List String) (temporary name : String) (contents : Bytes)
    (disk : Disk) : Except WorkspaceError Unit × Disk :=
  match faults.openSync with
  | some code => (.error (systemError code), disk)
  | none =>
      if (disk.node (d ++ [temporary])).isSome then (.error (systemError "EEXIST"), disk)
      else match disk.put (d ++ [temporary]) (.file (.regular contents)) with
        | .error _ => (.error (systemError "ENOENT"), disk)
        | .ok opened =>
            match faults.writeSync with
            | some code => (.error (systemError code), unlinkSync opened (d ++ [temporary]))
            | none =>
                match faults.renameSync with
                | some code => (.error (systemError code), unlinkSync opened (d ++ [temporary]))
                | none =>
                    match (unlinkSync opened (d ++ [temporary])).put (d ++ [name])
                        (.file (.regular contents)) with
                    | .error _ =>
                        (.error (systemError "EISDIR"), unlinkSync opened (d ++ [temporary]))
                    | .ok renamed => (.ok (), renamed)

/-- The steps after the directory was made. -/
def replaceTarget (faults : Faults) (uuid : String) (l : Located) (contents : Bytes)
    (expectedRevision : Option String) (disk : Disk) : Except WorkspaceError Unit × Disk :=
  match currentContents disk l with
  | .error e => (.error e, disk)
  | .ok current =>
      if expectedRevision = some (revision rt current) then
        match real disk l.parent with
        | .error _ => (.error (systemError "ENOENT"), disk)
        | .ok d => replaceFile faults d (temporaryName uuid l) l.name contents disk
      else (.error ⟨"revision conflict", 409, "revision_conflict", some (revision rt current)⟩,
        disk)

def writeFile (faults : Faults) (uuid : String)
    (idValue pathValue contentValue expectedRevision : Option String) (disk : Disk) :
    Except WorkspaceError SkillWriteResponse × Disk :=
  match checkWrite rt options idValue pathValue contentValue disk with
  | .error e => (.error e, disk)
  | .ok (id, relPath, contents, l) =>
      match mkdirSync disk l.parent with
      | .error _ => (.error (systemError "ENOTDIR"), disk)
      | .ok disk =>
          match replaceTarget rt faults uuid l contents expectedRevision disk with
          | (.error e, disk) => (.error e, disk)
          | (.ok (), disk) =>
              (.ok ⟨id, true, relPath, revision rt contents, 1, contents.length⟩, disk)

end Service

end Openlia.SkillService
