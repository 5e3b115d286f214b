import Mathlib.Algebra.GroupWithZero.Nat
import Openlia.Workspace.Service

/-! # What a share captures

A share is a copy of a workspace file and of what it includes, of a skill or of a
feature, with a revision of the original.
-/

namespace Openlia.Shares

open Lib Workspace
open Browser (trim isSpace)

inductive ShareKind where
  | workspace
  | skill
  | feature
  deriving DecidableEq

def ShareKind.text : ShareKind → String
  | .workspace => "workspace"
  | .skill => "skill"
  | .feature => "feature"

structure CapturedShareFile where
  path : String
  contentText : Option String
  contentBlob : Option Bytes
  mediaType : String
  sizeBytes : Nat
  editable : Bool
  deriving DecidableEq

structure CapturedSnapshot where
  kind : ShareKind
  targetPath : String
  title : String
  snapshotRevision : String
  mediaType : String
  metadataJson : Option String
  files : List CapturedShareFile
  totalBytes : Nat
  deriving DecidableEq

/-! ## Media types and titles -/

def contentTypesByExtension : List (String × String) :=
  [(".avif", "image/avif"), (".bash", "text/plain; charset=utf-8"), (".bmp", "image/bmp"),
    (".css", "text/css; charset=utf-8"), (".csv", "text/csv; charset=utf-8"),
    (".flac", "audio/flac"), (".gif", "image/gif"), (".hledger", "text/plain; charset=utf-8"),
    (".html", "text/html; charset=utf-8"), (".ico", "image/x-icon"),
    (".journal", "text/plain; charset=utf-8"), (".jpeg", "image/jpeg"), (".jpg", "image/jpeg"),
    (".js", "text/javascript; charset=utf-8"), (".json", "application/json; charset=utf-8"),
    (".m4a", "audio/mp4"), (".markdown", "text/markdown; charset=utf-8"),
    (".md", "text/markdown; charset=utf-8"), (".mov", "video/quicktime"), (".mp3", "audio/mpeg"),
    (".mp4", "video/mp4"), (".oga", "audio/ogg"), (".ogg", "audio/ogg"), (".ogv", "video/ogg"),
    (".pdf", "application/pdf"), (".png", "image/png"), (".py", "text/plain; charset=utf-8"),
    (".rem", "text/plain; charset=utf-8"), (".remind", "text/plain; charset=utf-8"),
    (".sh", "text/plain; charset=utf-8"), (".svg", "image/svg+xml"),
    (".text", "text/plain; charset=utf-8"), (".tif", "image/tiff"), (".tiff", "image/tiff"),
    (".toml", "text/plain; charset=utf-8"), (".ts", "text/plain; charset=utf-8"),
    (".txt", "text/plain; charset=utf-8"), (".wav", "audio/wav"), (".webm", "video/webm"),
    (".webp", "image/webp"), (".yaml", "text/yaml; charset=utf-8"),
    (".yml", "text/yaml; charset=utf-8")]

def isLineTerminator (c : Char) : Bool := c.toNat ∈ [0x0a, 0x0d, 0x2028, 0x2029]

/-- `^` at the start of the text. -/
def textStart : Regex := .look fun prev _ => prev = none

/-- `$` at the end of the text. -/
def textEnd : Regex := .look fun _ next => next = none

def multilineStart : Regex := .look fun prev _ => prev.all isLineTerminator

def multilineEnd : Regex := .look fun _ next => next.all isLineTerminator

/-- `.+`. -/
def dots : Regex := .some1 true fun c => !isLineTerminator c

/-- `/^---\r?\n([\s\S]*?)\r?\n---\r?\n?/`. -/
def frontmatterRegex : Regex :=
  .seqs [textStart, .lit "---", .opt (.lit "\r"), .lit "\n",
    .group "frontmatter" (.many false fun _ => true), .opt (.lit "\r"), .lit "\n---",
    .opt (.lit "\r"), .opt (.lit "\n")]

/-- `/^#\s+(.+)$/m`. -/
def headingRegex : Regex :=
  .seqs [multilineStart, .lit "#", .some1 true isSpace, .group "heading" dots, multilineEnd]

/-- A member that is a string of more than white space. -/
def titleMember (parsed : Json) (key : String) : Option String :=
  match parsed with
  | .obj members =>
      match members.lookup key with
      | some (.str s) => if trim s = "" then none else some (trim s)
      | _ => none
  | _ => none

section Capture

variable (rt : Runtime)

def inferMediaType (path : String) (editable : Bool) : String :=
  match contentTypesByExtension.lookup (fileExtension rt path) with
  | some mapped => mapped
  | none => if editable then "text/plain; charset=utf-8" else "application/octet-stream"

def extractMarkdownTitle (content fallbackPath : String) : String :=
  let frontmatter := (frontmatterRegex.matchAt [] content.toList).map (·.group "frontmatter")
  let parsed := (frontmatter.filter (· ≠ [])).bind fun text =>
    rt.parseYaml (utf8 (String.ofList text))
  let titled := parsed.bind fun p => (titleMember p "title").or (titleMember p "name")
  let heading := (headingRegex.search content.toList).map fun m =>
    trim (String.ofList (m.2.group "heading"))
  ((titled.or (heading.filter (· ≠ ""))).getD (lastPart fallbackPath))

/-! ## Includes -/

def resolveRelativeWorkspacePath (relativePath fromFilePath : String) : String :=
  let fromDirParts := (splitSlash (dropSlashes fromFilePath)).dropLast
  let relClean := (relativePath.toList.takeWhile (· ≠ '?')).takeWhile (· ≠ '#')
  let relParts := (splitSlash (String.ofList relClean)).filter fun p => p ≠ "" && p ≠ "."
  let resultParts := relParts.foldl (fun parts part =>
    parts.bind fun parts =>
      if part = ".." then if parts = [] then none else some parts.dropLast
      else some (parts ++ [part])) (some fromDirParts)
  (resultParts.map joinSlash).getD ""

/-- `split(/\r?\n/)`. -/
def splitLines (content : String) : List String :=
  let pieces := content.toList.splitOn '\n'
  let withoutReturn := fun piece : List Char =>
    if piece.getLast? = some '\r' then piece.dropLast else piece
  (pieces.dropLast.map withoutReturn ++ pieces.getLast?.toList).map String.ofList

def isQuote (c : Char) : Bool := c = '"' || c = '\''

/-- `trim().replace(/^["']|["']$/g, "").trim()`. -/
def unquote (text : String) : String :=
  let chars := (trim text).toList
  let chars := if chars.head?.any isQuote then chars.tail else chars
  trim (String.ofList (if chars.getLast?.any isQuote then chars.dropLast else chars))

/-- A letter in either case. -/
def litAnyCase (text : String) : Regex :=
  .seqs (text.toList.map fun c => .char fun d => d = c || d = c.toUpper)

/-- `/^\s*include\s+(.+)$/i`. -/
def ledgerIncludeRegex : Regex :=
  .seqs [textStart, .many true isSpace, litAnyCase "include", .some1 true isSpace,
    .group "target" dots, textEnd]

def ledgerInclude (line : String) : Option String :=
  (ledgerIncludeRegex.matchAt [] line.toList).map fun m =>
    unquote (String.ofList ((trim (String.ofList (m.group "target"))).toList.takeWhile fun c =>
      c ≠ ';' && c ≠ '#'))

/-- `/^INCLUDE(?:\s|\t)/i`. -/
def remindIncludeRegex : Regex := .seqs [textStart, litAnyCase "include", .char isSpace]

def remindInclude (statement : String) : Option String :=
  let trimmed := trim statement
  if (remindIncludeRegex.matchAt [] trimmed.toList).isSome then
    some (unquote (String.ofList (trimmed.toList.drop 7)))
  else none

/-- Lines that end in a backslash go on in the next one. -/
def statements (current : String) : List String → List String
  | [] => if current = "" then [] else [current]
  | rawLine :: rest =>
      let trimmedRight := (rawLine.toList.reverse.dropWhile isSpace).reverse
      if trimmedRight.getLast? = some '\\' then
        statements (current ++ String.ofList trimmedRight.dropLast ++ " ") rest
      else (current ++ rawLine) :: statements "" rest

def extractIncludedPaths (content filePath : String) : List String :=
  let ext := fileExtension rt filePath
  let targets :=
    if ext = ".hledger" ∨ ext = ".journal" then (splitLines content).filterMap ledgerInclude
    else if ext = ".rem" ∨ ext = ".remind" then
      (statements "" (splitLines content)).filterMap remindInclude
    else []
  targets.filter (· ≠ "")

structure IncludeRef where
  includeRef : String
  fromFile : String

def includeRefs (content path : String) : List IncludeRef :=
  (extractIncludedPaths rt content path).map fun ref => ⟨ref, path⟩

variable (limits : Limits) (disk : Disk)

def IncludeRef.candidates (item : IncludeRef) : List String :=
  [resolveRelativeWorkspacePath item.includeRef item.fromFile,
    dropSlashes item.includeRef].filter (· ≠ "")

/-- The first candidate that can be read; one that is there already ends the search. -/
def readCandidate (visited : List String) : List String → Option WorkspaceFile
  | [] => none
  | candidate :: rest =>
      if visited.contains candidate then none
      else if protectedPath rt candidate || isMemoryDocument candidate then
        readCandidate visited rest
      else
        match read rt limits disk candidate with
        | .ok incFile => some incFile
        | .error _ => readCandidate visited rest

/-- The next include of the queue, with what is left of the queue. -/
def nextInclude (visited : List String) : List IncludeRef → Option (WorkspaceFile × List IncludeRef)
  | [] => none
  | item :: queue =>
      match readCandidate rt limits disk visited item.candidates with
      | some incFile => some (incFile, queue)
      | none => nextInclude visited queue

/-- The files of the queue and their includes, as many as are still allowed. -/
def includedFiles : Nat → List String → List IncludeRef → List WorkspaceFile
  | 0, _, _ => []
  | allowed + 1, visited, queue =>
      match nextInclude rt limits disk visited queue with
      | none => []
      | some (incFile, queue) =>
          incFile :: includedFiles allowed (visited ++ [incFile.path])
            (queue ++ includeRefs rt incFile.content incFile.path)

def maxIncludeFiles : Nat := 50

def followsIncludes (path : String) : Bool :=
  [".rem", ".remind", ".hledger", ".journal"].contains (fileExtension rt path)

/-- The file itself, and what it includes. -/
def workspaceFiles (file : WorkspaceFile) : List WorkspaceFile :=
  file :: if followsIncludes rt file.path then
    includedFiles rt limits disk maxIncludeFiles [file.path] (includeRefs rt file.content file.path)
  else []

def textFile (file : WorkspaceFile) : CapturedShareFile :=
  ⟨file.path, some file.content, none, inferMediaType rt file.path true, file.size, true⟩

/-! ## Workspace files -/

def cleanTarget (rawTargetPath : String) : String := dropSlashes (trim rawTargetPath)

def shareTooLarge (what : String) : WorkspaceError :=
  refusal (what ++ " snapshot exceeds maximum allowed size") 413 "download_too_large"

def captureWorkspaceSnapshot (rawTargetPath : String) : Except WorkspaceError CapturedSnapshot := do
  let cleanPath := cleanTarget rawTargetPath
  if cleanPath = "" ∨ isMemoryDocument cleanPath ∨ protectedPath rt cleanPath then
    .error (refusal "workspace path cannot be shared" 403 "protected_path")
  else do
    let info ← metadata rt limits disk cleanPath
    let rawBytes ← download rt limits disk cleanPath
    let (title, files) ←
      if info.editable then do
        let fileData ← read rt limits disk cleanPath
        let ext := fileExtension rt cleanPath
        let title := if ext = ".md" ∨ ext = ".markdown" then
          extractMarkdownTitle rt fileData.content cleanPath else lastPart cleanPath
        Except.ok (title, (workspaceFiles rt limits disk fileData).map (textFile rt))
      else
        Except.ok (lastPart cleanPath,
          [⟨cleanPath, none, some rawBytes, inferMediaType rt cleanPath false, rawBytes.length,
            false⟩])
    let totalBytes := (files.map (·.sizeBytes)).sum
    if limits.maxDownloadBytes < totalBytes then .error (shareTooLarge "share")
    else
      .ok ⟨.workspace, cleanPath, title, revision rt rawBytes,
        inferMediaType rt cleanPath info.editable, none, files, totalBytes⟩

def computeLiveWorkspaceRevision (targetPath : String) : Option String :=
  if protectedPath rt targetPath || isMemoryDocument targetPath then none
  else
    match download rt limits disk targetPath with
    | .ok bytes => some (revision rt bytes)
    | .error _ => none

end Capture

/-! ## Packages -/

/-- A file of a skill or a feature, with its bytes. -/
structure PackageFile where
  path : String
  data : Bytes
  deriving DecidableEq

section Packages

variable (rt : Runtime) (limits : Limits)

/-- The hash of the paths and the revisions of the files. -/
def compositeRevision (files : List PackageFile) : String :=
  "sha256:" ++ rt.sha256 (files.flatMap fun f =>
    utf8 f.path ++ [0] ++ utf8 (revision rt f.data) ++ [10])

/-- The text of bytes that can be edited. -/
def editableText (data : Bytes) : Option String :=
  if data.length ≤ limits.maxEditableBytes ∧ data.contains 0 = false then decodeFatal data else none

def packageFile (file : PackageFile) : CapturedShareFile :=
  match editableText limits file.data with
  | some text =>
      ⟨file.path, some text, none, inferMediaType rt file.path true, file.data.length, true⟩
  | none =>
      ⟨file.path, none, some file.data, inferMediaType rt file.path false, file.data.length, false⟩

/-- The bytes that still fit. -/
def addBytes (what : String) (totalBytes : Nat) (data : Bytes) : Except WorkspaceError Nat :=
  if limits.maxDownloadBytes < totalBytes + data.length then .error (shareTooLarge what)
  else .ok (totalBytes + data.length)

def packageSnapshot (kind : ShareKind) (targetPath name mediaType metadataJson : String)
    (files : List PackageFile) : CapturedSnapshot :=
  ⟨kind, targetPath, if name = "" then targetPath else name, compositeRevision rt files, mediaType,
    some metadataJson, files.map (packageFile rt limits), (files.map (·.data.length)).sum⟩

end Packages

/-! ## Skills and features -/

inductive EntryKind where
  | file
  | symlink
  | other
  deriving DecidableEq

/-- What system calls answer in a directory, by absolute path. -/
structure Directory where
  existsSync : List String → Bool
  lstatSync : List String → Except String EntryKind
  readFileSync : List String → Except String Bytes

structure World where
  workspace : Disk
  skillsRoot : List String
  skills : Directory
  catalogs : Directory

structure SkillDetail where
  name : String
  metadataJson : String
  /-- The paths of the listed files. -/
  files : List String

structure FeatureCapture where
  name : String
  metadataJson : String
  files : List PackageFile

/-- The skill service and the feature service. -/
structure Services where
  skillDetail : World → String → Except WorkspaceError SkillDetail
  captureFeatureFiles : World → String → Except WorkspaceError FeatureCapture

def isSkillIdChar (c : Char) : Bool := c.isAlphanum || c = '_' || c = '-'

def validateSkillId (id : String) : Except WorkspaceError String :=
  if trim id = "" then .error (refusal "invalid skill identifier" 400 "invalid_skill_id")
  else
    let normalized := trim (replaceAll id '\\' '/')
    let parts := splitSlash normalized
    if 2 < parts.length ∨ parts.any (fun p => p == "" || !p.toList.all isSkillIdChar) then
      .error (refusal "invalid skill identifier format" 400 "invalid_skill_id")
    else .ok normalized

def isFeatureIdChar (c : Char) : Bool := c.isLower || c.isDigit || c = '-'

/-- `/^[a-z0-9][a-z0-9-]{0,62}$/`. -/
def isFeatureId (id : String) : Bool :=
  match id.toList with
  | [] => false
  | c :: rest => (c.isLower || c.isDigit) && rest.all isFeatureIdChar && rest.length ≤ 62

def validateFeatureId (value : String) : Except WorkspaceError String :=
  if trim value = "" then .error (refusal "feature id is required" 400 "invalid_feature_id")
  else if isFeatureId (trim value) then .ok (trim value)
  else .error (refusal "invalid feature id format" 400 "invalid_feature_id")

/-- `resolve` of a path below a directory. -/
def resolveBelow (dir : List String) (relPath : String) : List String :=
  let start := if startsWith relPath "/" then [] else dir
  (splitSlash relPath).foldl (fun parts part =>
    if part = "" ∨ part = "." then parts
    else if part = ".." then parts.dropLast else parts ++ [part]) start

def readSkillFileRawBytes (w : World) (skillId relPath : String) : Except WorkspaceError Bytes := do
  let activeDir := w.skillsRoot ++ splitSlash skillId
  let disabledDir := w.skillsRoot ++ ".openlia-disabled" :: splitSlash skillId
  let skillDir ←
    if w.skills.existsSync activeDir then Except.ok activeDir
    else if w.skills.existsSync disabledDir then Except.ok disabledDir
    else Except.error (refusal "skill not found" 404 "skill_not_found")
  let targetFile := resolveBelow skillDir relPath
  if skillDir.isPrefixOf targetFile = false then
    .error (refusal "invalid skill file path" 403 "invalid_path")
  else
    match w.skills.lstatSync targetFile with
    | .error code => .error (systemError code)
    | .ok .file =>
        match w.skills.readFileSync targetFile with
        | .error code => .error (systemError code)
        | .ok bytes => .ok bytes
    | .ok _ => .error (refusal "invalid skill file" 400 "not_a_file")

section Snapshots

variable (rt : Runtime) (limits : Limits) (services : Services) (w : World)

def sortedFiles (skill : SkillDetail) : List String :=
  skill.files.mergeSort fun a b => rt.localeCompare a b != .gt

/-- The files of a skill, while their total is allowed. -/
def readSkillFiles (check : Nat → Bytes → Except WorkspaceError Nat) (skillId : String) :
    Nat → List String → Except WorkspaceError (List PackageFile)
  | _, [] => .ok []
  | totalBytes, path :: rest => do
      let rawBytes ← readSkillFileRawBytes w skillId path
      let totalBytes ← check totalBytes rawBytes
      let files ← readSkillFiles check skillId totalBytes rest
      .ok (⟨path, rawBytes⟩ :: files)

def captureSkillSnapshot (rawSkillId : String) : Except WorkspaceError CapturedSnapshot := do
  let skillId ← validateSkillId rawSkillId
  let skill ← services.skillDetail w skillId
  let files ← readSkillFiles w (addBytes limits "skill") skillId 0 (sortedFiles rt skill)
  .ok (packageSnapshot rt limits .skill skillId skill.name "application/x-openlia-skill"
    skill.metadataJson files)

/-- The revision reads every file, however large. -/
def computeLiveSkillRevision (skillId : String) : Option String :=
  match (do
    let id ← validateSkillId skillId
    let skill ← services.skillDetail w id
    readSkillFiles w (fun totalBytes _ => .ok totalBytes) skillId 0 (sortedFiles rt skill)) with
  | .ok files => some (compositeRevision rt files)
  | .error _ => none

/-- The total of the files is allowed. -/
def checkTotal (what : String) : Nat → List PackageFile → Except WorkspaceError Unit
  | _, [] => .ok ()
  | totalBytes, file :: rest => do
      let totalBytes ← addBytes limits what totalBytes file.data
      checkTotal what totalBytes rest

def captureFeatureSnapshot (rawFeatureId : String) : Except WorkspaceError CapturedSnapshot := do
  let featureId ← validateFeatureId rawFeatureId
  let captured ← services.captureFeatureFiles w featureId
  checkTotal limits "feature" 0 captured.files
  .ok (packageSnapshot rt limits .feature featureId captured.name "application/x-openlia-feature"
    captured.metadataJson captured.files)

def computeLiveFeatureRevision (featureId : String) : Option String :=
  match (do
    let id ← validateFeatureId featureId
    services.captureFeatureFiles w id) with
  | .ok captured => some (compositeRevision rt captured.files)
  | .error _ => none

/-- What `createShare` and `syncShare` capture. -/
def capture (kind : ShareKind) (targetPath : String) : Except WorkspaceError CapturedSnapshot :=
  match kind with
  | .workspace => captureWorkspaceSnapshot rt limits w.workspace targetPath
  | .skill => captureSkillSnapshot rt limits services w targetPath
  | .feature => captureFeatureSnapshot rt limits services w targetPath

def currentRevision (kind : ShareKind) (targetPath : String) : Option String :=
  match kind with
  | .workspace => computeLiveWorkspaceRevision rt limits w.workspace targetPath
  | .skill => computeLiveSkillRevision rt services w targetPath
  | .feature => computeLiveFeatureRevision rt services w targetPath

end Snapshots

end Openlia.Shares
