import Openlia.Workspace.Service

/-! # Changing the workspace

Every change checks the request and the revision of the file first. A file is written to a
temporary one beside it that replaces it, a file is moved by a rename; the maintainer's
records follow.
-/

namespace Openlia.Workspace

open Lib
open Browser (trim)

/-! ## System calls -/

/-- The calls of a change that may fail, by their place in it. -/
inductive Call where
  | inspect
  | inspectDestination
  | lstat
  | readFile
  | openFile
  | writeSync
  | fsync
  | unlinkUnwritten
  | close
  | reread
  | link
  | unlinkLinked
  | rename
  | unlinkUnpublished
  | unlink
  | markFileDeleted
  | validate
  | reconcile
  | stat
  deriving DecidableEq

/-- Which calls fail, and with what code. -/
structure Faults where
  /-- How many components of the way were there or were made before `mkdir` failed. -/
  mkdir : Option (Nat × String)
  fails : Call → Option String

def noFaults : Faults := ⟨none, fun _ => none⟩

def errnoCode : Errno → String
  | .notExist => "ENOENT"
  | .notDir => "ENOTDIR"
  | .isDir => "EISDIR"
  | .notEmpty => "ENOTEMPTY"
  | .link => "ELOOP"

def coded (x : Except Errno Disk) : Except String Disk :=
  match x with
  | .ok disk => .ok disk
  | .error errno => .error (errnoCode errno)

/-- A change of the disk that may fail after some of its steps. -/
abbrev Change := EStateM WorkspaceError Disk

/-- A check that reads only. -/
def checked {α : Type} (x : Except WorkspaceError α) : Change α := fun disk =>
  match x with
  | .ok a => .ok a disk
  | .error e => .error e disk

/-- A system call that changes the disk or fails. -/
def sysCall (toError : String → WorkspaceError) (fault : Option String)
    (f : Disk → Except String Disk) : Change Unit := fun disk =>
  match fault with
  | some code => .error (toError code) disk
  | none =>
      match f disk with
      | .ok disk' => .ok () disk'
      | .error code => .error (toError code) disk

/-- A call that reads only. -/
def noFault (toError : String → WorkspaceError) : Option String → Except WorkspaceError Unit
  | none => .ok ()
  | some code => .error (toError code)

/-- `mkdirSync` with `recursive`. -/
def mkdirSync (faults : Faults) (dir : List String) : Change Unit := fun disk =>
  match faults.mkdir with
  | some (made, code) =>
      match disk.mkdirAll (dir.take made) with
      | .ok disk' => .error (systemError code) disk'
      | .error _ => .error (systemError code) disk
  | none =>
      match disk.mkdirAll dir with
      | .ok disk' => .ok () disk'
      | .error errno => .error (systemError (errnoCode errno)) disk

/-- `openSync` with `wx`. -/
def createExclusive (p : List String) (disk : Disk) : Except String Disk :=
  if (disk.node p).isSome then .error "EEXIST" else coded (disk.put p (.file (.regular [])))

def fill (p : List String) (contents : Bytes) (disk : Disk) : Except String Disk :=
  coded (disk.put p (.file (.regular contents)))

def unlinkSync (p : List String) (disk : Disk) : Except String Disk :=
  if disk.isDir p then .error "EISDIR" else coded (disk.remove p)

def linkSync (p q : List String) (disk : Disk) : Except String Disk :=
  match disk.node p with
  | some (.file entry) =>
      if (disk.node q).isSome then .error "EEXIST" else coded (disk.put q (.file entry))
  | _ => .error "ENOENT"

def renameSync (p q : List String) (disk : Disk) : Except String Disk :=
  match disk.node p with
  | some (.file entry) =>
      match disk.remove p with
      | .ok disk' => coded (disk'.put q (.file entry))
      | .error errno => .error (errnoCode errno)
  | _ => .error "ENOENT"

section Changes

variable (rt : Runtime) (limits : Limits) (faults : Faults)

/-- `assertNoSymlink` looks at the components that are there. -/
def inspectPath (call : Call) (disk : Disk) (path : String) : Except WorkspaceError Unit := do
  if (components path).inits.tail.any (existsSync disk) then
    noFault systemError (faults.fails call)
  assertNoSymlink disk path

def checkRevision (expected : Option String) (current : Bytes) : Except WorkspaceError Unit :=
  if expected = some (revision rt current) then .ok ()
  else .error ⟨"revision conflict", 409, "revision_conflict", some (revision rt current)⟩

/-- `fileMetadata`, for a file of these bytes. -/
def fileMetadata (path : String) (contents : Bytes) :
    Except WorkspaceError WorkspaceFileMetadata := do
  noFault systemError (faults.fails .stat)
  .ok ⟨path, contents.length, editable rt limits path contents.length, revision rt contents⟩

def notEditable : WorkspaceError := refusal "file type is not editable" 415 "not_editable"

def destinationExists : WorkspaceError :=
  refusal "destination already exists" 409 "destination_exists"

/-! ## Writing -/

/-- The bytes to write, if the request may be served. -/
def checkWrite (disk : Disk) (pathValue : String) (contentValue : Option String) :
    Except WorkspaceError Bytes := do
  let path ← validateRelativePath rt pathValue (settings rt disk)
  match contentValue with
  | none => .error (refusal "content must be a string" 400 "invalid_content")
  | some content =>
      if limits.maxEditableBytes < (utf8 content).length then
        .error (refusal "file is too large to edit" 413 "file_too_large")
      else if (utf8 content).contains 0 then
        .error (refusal "binary content is not editable" 415 "binary_content")
      else if isEditablePath rt path = false then .error notEditable
      else do
        inspectPath faults .inspect disk path
        .ok (utf8 content)

/-- What the file has now; nothing where there is none. -/
def currentContents (disk : Disk) (p : List String) (createOnly : Bool) :
    Except WorkspaceError Bytes :=
  if existsSync disk p then
    if createOnly then .error destinationExists
    else do
      noFault systemError (faults.fails .lstat)
      match disk.node p with
      | some (.file (.regular bytes)) =>
          if limits.maxEditableBytes < bytes.length then
            .error (refusal "file is too large to edit" 413 "file_too_large")
          else do
            noFault systemError (faults.fails .readFile)
            .ok bytes
      | _ => .error (refusal "workspace path is not a regular file" 400 "not_a_file")
  else .ok []

/-- The temporary file beside a file. -/
def temporary (uuid : String) (target : List String) : List String :=
  target.dropLast ++ ["." ++ target.getLast?.getD "" ++ ".openlia-" ++ uuid ++ ".tmp"]

/-- `if (existsSync(temporary)) unlinkSync(temporary)`. -/
def removeTemporary (call : Call) (temp : List String) : Change Unit := fun disk =>
  if existsSync disk temp then sysCall systemError (faults.fails call) (unlinkSync temp) disk
  else .ok () disk

def writeTemporary (temp : List String) (contents : Bytes) : Change Unit := fun disk =>
  match sysCall systemError (faults.fails .openFile) (createExclusive temp) disk with
  | .error e disk => .error e disk
  | .ok _ disk =>
      let written : Change Unit := do
        sysCall systemError (faults.fails .writeSync) (fill temp contents)
        checked (noFault systemError (faults.fails .fsync))
      let outcome : EStateM.Result WorkspaceError Disk Unit :=
        match written disk with
        | .ok _ disk => .ok () disk
        | .error e disk =>
            match removeTemporary faults .unlinkUnwritten temp disk with
            | .ok _ disk => .error e disk
            | .error e disk => .error e disk
      -- The descriptor is closed in any case; an error of it takes the place of any other.
      match faults.fails .close, outcome with
      | some code, .ok _ disk => .error (systemError code) disk
      | some code, .error _ disk => .error (systemError code) disk
      | none, outcome => outcome

/-- The bytes of the regular file at a path; none where there is nothing. -/
def beforeReplace (disk : Disk) (target : List String) : Bytes :=
  match disk.node target with
  | some (.file (.regular bytes)) => bytes
  | _ => []

/-- The temporary file takes the place of the file that was read. -/
def replace (temp target : List String) (createOnly : Bool) (current : Bytes) : Change Unit := do
  let disk ← get
  if existsSync disk target then checked (noFault systemError (faults.fails .reread))
  checked (checkRevision rt (some (revision rt current)) (beforeReplace disk target))
  if createOnly then do
    sysCall systemError (faults.fails .link) (linkSync temp target)
    sysCall systemError (faults.fails .unlinkLinked) (unlinkSync temp)
  else sysCall systemError (faults.fails .rename) (renameSync temp target)

def publish (temp target : List String) (createOnly : Bool) (current : Bytes) : Change Unit :=
  fun disk =>
    match replace rt faults temp target createOnly current disk with
    | .ok _ disk => .ok () disk
    | .error e disk =>
        match removeTemporary faults .unlinkUnpublished temp disk with
        | .error e disk => .error e disk
        | .ok _ disk =>
            .error (if createOnly = true ∧ e = systemError "EEXIST" then destinationExists else e)
              disk

def write (uuid pathValue : String) (contentValue expected : Option String) (createOnly : Bool) :
    Change WorkspaceFileMetadata := do
  let disk ← get
  let contents ← checked (checkWrite rt limits faults disk pathValue contentValue)
  let target := components pathValue
  mkdirSync faults target.dropLast
  let disk ← get
  let current ← checked (currentContents limits faults disk target createOnly)
  checked (checkRevision rt expected current)
  writeTemporary faults (temporary uuid target) contents
  publish rt faults (temporary uuid target) target createOnly current
  checked (noFault systemError (faults.fails .validate))
  if isTemplateOrSchemaPath rt pathValue then
    checked (noFault systemError (faults.fails .reconcile))
  checked (fileMetadata rt limits faults pathValue contents)

/-! ## Deleting -/

def protectedTemplate : WorkspaceError :=
  refusal "template and schema files are protected" 403 "protected_path"

def notRegular : WorkspaceError := refusal "workspace path is not a regular file" 400 "not_a_file"

def checkDelete (disk : Disk) (pathValue : String) (expected : Option String) :
    Except WorkspaceError Unit := do
  let missing := (mapFilesystemError · "workspace file was not found")
  let path ← validateRelativePath rt pathValue (settings rt disk)
  if isTemplateOrSchemaPath rt path then .error protectedTemplate
  else do
    inspectPath faults .inspect disk path
    noFault missing (faults.fails .lstat)
    match lstatSync disk (components path) with
    | .error code => .error (missing code)
    | .ok (.file (.regular bytes)) => do
        noFault missing (faults.fails .readFile)
        checkRevision rt expected bytes
        noFault missing (faults.fails .reread)
    | .ok _ => .error notRegular

def delete (pathValue : String) (expected : Option String) : Change String := do
  let disk ← get
  checked (checkDelete rt faults disk pathValue expected)
  sysCall (mapFilesystemError · "workspace file was not found") (faults.fails .unlink)
    (unlinkSync (components pathValue))
  checked (noFault systemError (faults.fails .markFileDeleted))
  pure pathValue

/-! ## Moving -/

/-- The bytes to move, if the request may be served. -/
def checkMove (disk : Disk) (sourcePath destinationPath : String) (expected : Option String) :
    Except WorkspaceError Bytes := do
  let missing := (mapFilesystemError · "source file was not found")
  inspectPath faults .inspect disk sourcePath
  inspectPath faults .inspectDestination disk destinationPath
  noFault missing (faults.fails .lstat)
  match lstatSync disk (components sourcePath) with
  | .error code => .error (missing code)
  | .ok (.file (.regular bytes)) =>
      if existsSync disk (components destinationPath) then
        .error (refusal "destination file already exists" 409 "destination_exists")
      else do
        noFault missing (faults.fails .readFile)
        checkRevision rt expected bytes
        .ok bytes
  | .ok _ => .error notRegular

def executeMoveOrRename (sourcePath destinationPath : String) (expected : Option String) :
    Change WorkspaceFileMetadata := do
  let disk ← get
  let contents ← checked (checkMove rt faults disk sourcePath destinationPath expected)
  mkdirSync faults (components destinationPath).dropLast
  checked (noFault (mapFilesystemError · "operation failed") (faults.fails .reread))
  sysCall (mapFilesystemError · "operation failed") (faults.fails .rename)
    (renameSync (components sourcePath) (components destinationPath))
  checked (noFault systemError (faults.fails .markFileDeleted))
  checked (noFault systemError (faults.fails .validate))
  checked (fileMetadata rt limits faults destinationPath contents)

/-- The path that a file has under its new name. -/
def renamedPath (disk : Disk) (pathValue : String) (newNameValue : Option String) :
    Except WorkspaceError String := do
  let sourcePath ← validateRelativePath rt pathValue (settings rt disk)
  match newNameValue.filter (trim · ≠ "") with
  | none => .error (refusal "invalid new file name" 400 "invalid_path")
  | some newName =>
      let cleanName := trim newName
      if cleanName.toList.any (fun c => c = '/' || c = '\\' || c = '\x00') then
        .error (refusal "new file name must not contain path separators" 400 "invalid_path")
      else if isTemplateOrSchemaPath rt sourcePath then .error protectedTemplate
      else
        let destinationPath := joinSlash ((splitSlash sourcePath).dropLast ++ [cleanName])
        if isTemplateOrSchemaPath rt destinationPath then
          .error (refusal "cannot rename to a template or schema name" 403 "protected_path")
        else do
          let destinationPath ← validateRelativePath rt destinationPath (settings rt disk)
          if isEditablePath rt destinationPath = false then .error notEditable
          else .ok destinationPath

def rename (pathValue : String) (newNameValue expected : Option String) :
    Change WorkspaceFileMetadata := do
  let disk ← get
  let destinationPath ← checked (renamedPath rt disk pathValue newNameValue)
  executeMoveOrRename rt limits faults pathValue destinationPath expected

/-- The paths of a move, if they are allowed. -/
def movedPaths (disk : Disk) (sourcePathValue destPathValue : String) :
    Except WorkspaceError Unit := do
  let sourcePath ← validateRelativePath rt sourcePathValue (settings rt disk)
  let destinationPath ← validateRelativePath rt destPathValue (settings rt disk)
  if sourcePath = destinationPath then
    .error (refusal "source and destination paths are identical" 400 "invalid_path")
  else if isTemplateOrSchemaPath rt sourcePath then .error protectedTemplate
  else if isTemplateOrSchemaPath rt destinationPath then
    .error (refusal "cannot move to a template or schema path" 403 "protected_path")
  else if isEditablePath rt destinationPath = false then .error notEditable
  else .ok ()

def move (sourcePathValue destPathValue : String) (expected : Option String) :
    Change WorkspaceFileMetadata := do
  let disk ← get
  checked (movedPaths rt disk sourcePathValue destPathValue)
  executeMoveOrRename rt limits faults sourcePathValue destPathValue expected

/-! ## Creating -/

def creationDisallowedDomains : List String :=
  ["archive", "inbox", "inbox/daily-briefing", "inbox/ingestion", "sources"]

/-- `replace(/^\/+/, "").replace(/\/+$/, "")`. -/
def stripSlashes (s : String) : String :=
  String.ofList ((s.toList.dropWhile (· = '/')).reverse.dropWhile (· = '/')).reverse

def createdDomain (domainValue : Option String) : Except WorkspaceError String :=
  match domainValue.filter (trim · ≠ "") with
  | none => .error (refusal "domain must be a non-empty string" 400 "invalid_domain")
  | some value =>
      let domain := stripSlashes (replaceAll (trim value) '\\' '/')
      let refused := refusal ("domain \"" ++ domain ++ "\" does not allow file creation") 403
        "domain_not_allowed"
      if includes domain ".." ||
          (splitSlash domain).any (fun seg => seg == "" || startsWith seg ".") then .error refused
      else if creationDisallowedDomains.contains domain then .error refused
      else .ok domain

/-- Only the knowledge domain has nested paths. -/
def createdName (domain : String) (nameValue : Option String) : Except WorkspaceError String :=
  match nameValue.filter (trim · ≠ "") with
  | none => .error (refusal "name must be a non-empty string" 400 "invalid_filename")
  | some name =>
      let filename := stripSlashes (trim name)
      let allowNestedPath := domain == "knowledge"
      if filename.toList.contains '\\' || includes filename ".." ||
          (!allowNestedPath && filename.toList.contains '/') ||
          (allowNestedPath && (splitSlash filename).any fun seg =>
            seg == "" || seg == "." || startsWith seg ".") then
        .error (refusal "filename cannot contain path separators" 400 "invalid_filename")
      else if endsWith (lastPart filename) "-template.md" ||
          endsWith (lastPart filename) ".schema.json" then
        .error (refusal "filename cannot use protected template or schema name" 400
          "invalid_filename")
      else .ok (if endsWith (rt.toLowerCase filename) ".md" then filename else filename ++ ".md")

def createdPath (domainValue nameValue : Option String) : Except WorkspaceError String := do
  let domain ← createdDomain domainValue
  let filename ← createdName rt domain nameValue
  .ok (domain ++ "/" ++ filename)

/-- `read`, with the calls that may fail. -/
def readBack (disk : Disk) (pathValue : String) : Except WorkspaceError WorkspaceFile := do
  let missing := (mapFilesystemError · "workspace file was not found")
  let path ← validateRelativePath rt pathValue (settings rt disk)
  inspectPath faults .inspect disk path
  noFault missing (faults.fails .lstat)
  match lstatSync disk (components path) with
  | .error code => .error (missing code)
  | .ok (.file (.regular contents)) =>
      if limits.maxEditableBytes < contents.length then
        .error (refusal "file is too large to edit" 413 "file_too_large")
      else do
        noFault missing (faults.fails .readFile)
        if contents.contains 0 then
          .error (refusal "binary files are not editable" 415 "binary_file")
        else
          match decodeFatal contents with
          | none => .error (refusal "file is not valid UTF-8" 415 "invalid_utf8")
          | some text => do
              noFault systemError (faults.fails .validate)
              let info ← fileMetadata rt limits faults path contents
              .ok ⟨info, text⟩
  | .ok _ => .error (refusal "workspace path is not a file" 400 "not_a_file")

/-- What the new file has: the given content, a starter, a template or a heading, with the
defaults of the schema and the given fields and sections. -/
abbrev Composer := Disk → String → Except WorkspaceError String

def createFile (readFaults : Faults) (uuid : String) (compose : Composer)
    (domainValue nameValue : Option String) : Change WorkspaceFile := do
  let disk ← get
  let relativePath ← checked (createdPath rt domainValue nameValue)
  if existsSync disk (components relativePath) then
    throw (refusal ("file \"" ++ relativePath ++ "\" already exists") 409 "destination_exists")
  else do
    let content ← checked (compose disk relativePath)
    let _ ← write rt limits faults uuid relativePath (some content) (some (revision rt [])) false
    let disk ← get
    checked (readBack rt limits readFaults disk relativePath)

end Changes

end Openlia.Workspace
