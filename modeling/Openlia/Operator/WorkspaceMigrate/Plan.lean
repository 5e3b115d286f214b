import Openlia.Lib.Crash
import Openlia.Operator.WorkspaceMigrate.Classify

/-! # Planning, staging and applying a migration

The plan puts the files of a legacy tree into chunks by their domain. The chunks are staged for
review, each in a directory of its own, and applied one by one.
-/

namespace Openlia.WorkspaceMigrate

open Lib Crash
open Skills (FileName Path Bytes relPath fileName filepathBase hasPrefix)

inductive FileStatus where
  | new
  | identical
  | conflict
  | blocked_secret
  deriving DecidableEq

inductive ChunkState where
  | pending
  | approved
  | rejected
  | applied
  deriving DecidableEq

structure WorkspaceMigrationFile where
  SourcePath : String
  TargetPath : String
  Domain : String
  Status : FileStatus
  SourceHash : String
  TargetHash : String
  SourceSize : Nat
  OriginalContent : Bytes
  ProposedContent : Bytes
  Rationale : String
  deriving DecidableEq

structure WorkspaceMigrationChunk where
  ID : String
  Domain : String
  Title : String
  State : ChunkState
  Files : List WorkspaceMigrationFile
  Explanation : String
  deriving DecidableEq

structure WorkspaceMigrationPlan where
  Schema : Nat
  ID : String
  CreatedAt : String
  WorkspaceRoot : String
  TotalFiles : Nat
  TotalChunks : Nat
  TotalNew : Nat
  TotalIdentical : Nat
  TotalConflicts : Nat
  TotalBlockedSec : Nat
  Chunks : List WorkspaceMigrationChunk
  deriving DecidableEq

/-- A tree of regular files. -/
abbrev Files := Tree FileName Bytes

/-! ## The plan -/

section Planning

variable (rt : Runtime)

/-- The hash of a file of the workspace, by its path. -/
def IndexWorkspace (workspace : Files) (targetPath : String) : Option String :=
  let index := workspace.entries.keys.filterMap fun p =>
    (workspace.content p).map fun data => (relPath p, rt.ComputeHash data)
  (index.filter fun e => !(hasPrefix e.1 ".git/" || e.1 = ".DS_Store")).lookup targetPath

/-- `ActiveDirectories` of `InspectTargetWorkspace`, in the order of `ReadDir`. -/
def InspectTargetWorkspace (workspace : Files) : List String :=
  let names := workspace.entries.keys.filterMap fun p =>
    match p with
    | [c] => if workspace.isDir p && !hasPrefix c.1 "." then some c.1 else none
    | _ => none
  names.mergeSort fun a b => decide (a ≤ b)

/-- What is planned for a file of the legacy tree. -/
def plannedFile (index : String → Option String) (activeDirectories : List String)
    (source : Path × Bytes) : WorkspaceMigrationFile :=
  let rel := relPath source.1
  let data := source.2
  let sourceHash := rt.ComputeHash data
  if DetectSecretContent rel data then
    { SourcePath := rel
      TargetPath := ""
      Domain := "quarantine"
      Status := .blocked_secret
      SourceHash := sourceHash
      TargetHash := ""
      SourceSize := data.length
      OriginalContent := []
      ProposedContent := []
      Rationale := "Detected confidential tokens, private key, or .env file" }
  else
    let adapted := ClassifyAndAdaptFileWithProfile rt rel data activeDirectories
    { SourcePath := rel
      TargetPath := adapted.targetPath
      Domain := adapted.domain
      Status :=
        match index adapted.targetPath with
        | some existingHash => if existingHash = sourceHash then .identical else .conflict
        | none => .new
      SourceHash := sourceHash
      TargetHash := (index adapted.targetPath).getD ""
      SourceSize := data.length
      OriginalContent := data
      ProposedContent := adapted.adaptedContent
      Rationale := adapted.rationale }

/-- What the walk makes of a file; none where it is left out. -/
def scanFile (index : String → Option String) (activeDirectories : List String)
    (source : Path × Bytes) : Option WorkspaceMigrationFile :=
  if IsIgnoredPath rt (relPath source.1) then none
  else if IsEmptyStub source.2 then none
  else some (plannedFile rt index activeDirectories source)

def domainTitles : List (String × String) :=
  [("calendar", "Calendar & Schedules"),
    ("areas", "Personal Routines & Areas"),
    ("people", "Personal Profile & Preferences"),
    ("ideas", "Ideas & Concepts"),
    ("tasks", "Tasks & Action Items"),
    ("travel", "Travel Ideas & Plans"),
    ("knowledge", "Learning Lessons & Notes"),
    ("archive", "Historical Daily Memory Logs"),
    ("inbox", "Inbox Items for Review")]

/-- The slices `files[i:i+chunkSize]`, `i` a multiple of `chunkSize`. -/
def slices {α : Type} (chunkSize : Nat) (files : List α) : List (List α) :=
  (List.range ((files.length + chunkSize - 1) / chunkSize)).map fun k =>
    (files.drop (k * chunkSize)).take chunkSize

/-- A slice of a domain, with its number in the domain. -/
structure Batch where
  domain : String
  number : Nat
  files : List WorkspaceMigrationFile
  canonical : Bool

def domainBatches (chunkSize : Nat) (scannedFiles : List WorkspaceMigrationFile) (canonical : Bool)
    (domain : String) : List Batch :=
  (slices chunkSize (scannedFiles.filter (·.Domain = domain))).mapIdx fun i files =>
    ⟨domain, i + 1, files, canonical⟩

/-- `chunkCounter` starts at 1. -/
def chunkID (chunkCounter : Nat) (domain : String) : String :=
  "chunk-" ++ toString chunkCounter ++ "-" ++
    String.ofList (domain.toList.map fun c => if c = '/' then '-' else c)

def batchChunk (i : Nat) (batch : Batch) : WorkspaceMigrationChunk :=
  let count := toString batch.files.length
  { ID := chunkID (i + 1) batch.domain
    Domain := batch.domain
    Title :=
      if batch.canonical then
        match domainTitles.lookup batch.domain with
        | some friendly => friendly ++ " (" ++ count ++ " file(s))"
        | none => "Migrate " ++ count ++ " file(s) into " ++ batch.domain ++ "/"
      else "Handle " ++ count ++ " file(s) in " ++ batch.domain
    State := .pending
    Files := batch.files
    Explanation :=
      if batch.canonical then
        "Domain batch " ++ toString batch.number ++ " for " ++ batch.domain
      else "Uncategorized or quarantined files" }

/-- The order in which the keys of a map are visited. -/
def MapOrder := { visit : List String → List String // ∀ l, (visit l).Perm l }

/-- The domains of a plan, those that are not canonical in the order of the map. -/
def planBatches (mapOrder : MapOrder) (chunkSize : Nat)
    (scannedFiles : List WorkspaceMigrationFile) : List Batch :=
  let others := ((scannedFiles.map (·.Domain)).dedup.filter (· ∉ CanonicalDomains))
  CanonicalDomains.flatMap (domainBatches chunkSize scannedFiles true) ++
    (mapOrder.1 others).flatMap (domainBatches chunkSize scannedFiles false)

/-- `if chunkSize <= 0 { chunkSize = 5 }` -/
def effectiveSize (chunkSize : Int) : Nat := if chunkSize ≤ 0 then 5 else chunkSize.toNat

/-- The plan without a model; `sources` are the files in the order of the walk. -/
def BuildMigrationPlan (migrationID createdAt workspaceRoot : String) (mapOrder : MapOrder)
    (sources : List (Path × Bytes)) (workspace : Files) (chunkSize : Int) :
    WorkspaceMigrationPlan :=
  let scannedFiles := sources.filterMap
    (scanFile rt (IndexWorkspace rt workspace) (InspectTargetWorkspace workspace))
  let chunks := (planBatches mapOrder (effectiveSize chunkSize) scannedFiles).mapIdx batchChunk
  { Schema := 1
    ID := migrationID
    CreatedAt := createdAt
    WorkspaceRoot := workspaceRoot
    TotalFiles := scannedFiles.length
    TotalChunks := chunks.length
    TotalNew := scannedFiles.countP (·.Status = .new)
    TotalIdentical := scannedFiles.countP (·.Status = .identical)
    TotalConflicts := scannedFiles.countP (·.Status = .conflict)
    TotalBlockedSec := scannedFiles.countP (·.Status = .blocked_secret)
    Chunks := chunks }

end Planning

/-! ## Staging -/

/-- The content that is proposed for a file, or its own. -/
def WorkspaceMigrationFile.content (file : WorkspaceMigrationFile) : Bytes :=
  if file.ProposedContent = [] then file.OriginalContent else file.ProposedContent

/-- A call on a tree of files that may fail. -/
def change (call : Files → Except Errno Files) (context : String) : Prog Files String Unit := do
  let files ← Prog.get
  let files' ← Prog.lift ((call files).mapError (context ++ ·.text))
  Prog.write fun _ => files'

/-- The file a target has in the directory of its chunk. -/
def stagedPath (chunkID targetPath : String) : Option Path := do
  let dir ← fileName chunkID.toList
  let base ← fileName (filepathBase targetPath).toList
  some [dir, base]

def stageFile (chunkID : String) (file : WorkspaceMigrationFile) : Prog Files String Unit :=
  match stagedPath chunkID file.TargetPath with
  | none => Prog.fail "is a directory"
  | some p => change (·.writeFile p file.content) ""

def stageFiles (chunkID : String) : List WorkspaceMigrationFile → Prog Files String Unit
  | [] => pure ()
  | file :: files =>
      if file.Status = .blocked_secret then stageFiles chunkID files
      else do
        stageFile chunkID file
        stageFiles chunkID files

def makeChunkDir (chunkID : String) : Prog Files String Unit :=
  match fileName chunkID.toList with
  | none => Prog.fail "invalid argument"
  | some dir => change (·.mkdirAll [dir]) ""

def stageChunks : List WorkspaceMigrationChunk → Prog Files String Unit
  | [] => pure ()
  | chunk :: chunks => do
      makeChunkDir chunk.ID
      stageFiles chunk.ID chunk.Files
      stageChunks chunks

/-- The state is the directory `chunks` of the migration. -/
def StageMigrationChunks (plan : WorkspaceMigrationPlan) : Prog Files String Unit :=
  stageChunks plan.Chunks

/-! ## Applying -/

/-- `filepath.Clean` of an absolute path, by its components. -/
def cleanAbsolute (parts : List (List Char)) : List (List Char) :=
  parts.foldl (fun out c =>
    if c = [] ∨ c = ['.'] then out else if c = ['.', '.'] then out.dropLast else out ++ [c]) []

/-- The path below the workspace that a target leads to. -/
def destination (workspaceRoot : Path) (targetPath : String) : Except String Path :=
  let root := workspaceRoot.map fun c => c.1.toList
  let destPath := cleanAbsolute (root ++ targetPath.toList.splitOn '/')
  if root <+: destPath ∧ root ≠ destPath then
    match (destPath.drop root.length).mapM fileName with
    | some p => .ok p
    | none => .error "invalid argument"
  else .error ("illegal target path outside workspace: " ++ targetPath)

/-- `plan.json` and the directories `chunks` and `workspace`. -/
structure MigrationState where
  plan : WorkspaceMigrationPlan
  chunks : Files
  workspace : Files

abbrev MigrationAction := Prog MigrationState String

/-- What is read of a plan that was saved. -/
def savedPlan (rt : Runtime) (plan : WorkspaceMigrationPlan) : WorkspaceMigrationPlan :=
  { plan with
    Chunks := plan.Chunks.map fun chunk =>
      { chunk with
        Files := chunk.Files.map fun file =>
          { file with
            OriginalContent := rt.jsonText file.OriginalContent
            ProposedContent := rt.jsonText file.ProposedContent } } }

def appliedContent (overrides : String → Option Bytes) (chunks : Files) (chunkID : String)
    (file : WorkspaceMigrationFile) : Bytes :=
  match overrides file.TargetPath with
  | some overrideContent => overrideContent
  | none =>
      match (stagedPath chunkID file.TargetPath).bind chunks.content with
      | some stagedData => stagedData
      | none => file.content

def onWorkspace {α : Type} (p : Prog Files String α) : MigrationAction α :=
  Prog.focus (·.workspace) (fun workspace s => { s with workspace := workspace }) p

/-- A file is written beside its place and moved there. -/
def writeDestination (p : Path) (content : Bytes) : Prog Files String Unit := do
  change (·.mkdirAll p.dropLast) ("mkdir for " ++ relPath p ++ ": ")
  change (·.writeFile p content) ("write " ++ relPath p ++ ": ")

def applyFiles (workspaceRoot : Path) (overrides : String → Option Bytes) (chunkID : String) :
    List WorkspaceMigrationFile → MigrationAction Unit
  | [] => pure ()
  | file :: files =>
      if file.Status = .blocked_secret then applyFiles workspaceRoot overrides chunkID files
      else do
        let p ← Prog.lift (destination workspaceRoot file.TargetPath)
        let s ← Prog.get
        onWorkspace (writeDestination p (appliedContent overrides s.chunks chunkID file))
        applyFiles workspaceRoot overrides chunkID files

/-- The first chunk of the id is applied. -/
def markApplied (chunkID : String) : List WorkspaceMigrationChunk → List WorkspaceMigrationChunk
  | [] => []
  | chunk :: chunks =>
      if chunk.ID = chunkID then { chunk with State := .applied } :: chunks
      else chunk :: markApplied chunkID chunks

def ApplyMigrationChunk (rt : Runtime) (workspaceRoot : Path) (chunkID : String)
    (overrides : String → Option Bytes) : MigrationAction Unit := do
  let s ← Prog.get
  match s.plan.Chunks.find? (·.ID = chunkID) with
  | none => Prog.fail ("chunk " ++ chunkID ++ " not found in migration " ++ s.plan.ID)
  | some targetChunk => do
      applyFiles workspaceRoot overrides chunkID targetChunk.Files
      Prog.write fun s' =>
        { s' with plan := savedPlan rt { s.plan with Chunks := markApplied chunkID s.plan.Chunks } }

/-- Chunks are applied one after the other, without overrides. -/
def applyAll (rt : Runtime) (workspaceRoot : Path) : List String → MigrationAction Unit
  | [] => pure ()
  | id :: ids => do
      ApplyMigrationChunk rt workspaceRoot id fun _ => none
      applyAll rt workspaceRoot ids

end Openlia.WorkspaceMigrate
