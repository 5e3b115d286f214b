import Openlia.Lib.Crash
import Openlia.Operator.Instructions.Language
import Openlia.Operator.Skills.Patch

/-! # Managed instructions

An instruction of the release is installed as a text of the user. Beside it stand its baseline, the
copy of a release that is to be reviewed, and metadata with the hash of the baseline.
-/

namespace Openlia.Instructions

open Crash Skills

/-! ## Data -/

structure InstructionMetadata where
  Schema : Nat
  Name : String
  Ownership : String
  Distribution : String
  SourceID : String
  BaselineHash : String
  CurrentHash : String
  AvailableHash : String
  BaselineSnapshot : String
  AvailableSnapshot : String
  InstalledAt : String
  UpdatedAt : String
  deriving DecidableEq

structure InstructionResult where
  Name : String
  State : String
  Ownership : String
  Action : String
  CurrentHash : String
  BaselineHash : String
  AvailableHash : String
  UpdateAvailable : Bool
  Customized : Bool
  Distribution : String
  SourceID : String
  deriving DecidableEq

structure InstructionStatusResult where
  Schema : Nat
  OK : Bool
  Action : String
  AttentionRequired : Bool
  Instructions : List InstructionResult

structure InstructionDiffResult where
  Schema : Nat
  OK : Bool
  Action : String
  Name : String
  State : String
  Local : Bytes
  Upstream : Bytes
  ThreeWay : Bytes

structure InstructionMutationResult where
  Schema : Nat
  OK : Bool
  Action : String
  Name : String
  State : String
  ResultHash : String
  Backup : String
  Conflicts : Nat
  deriving DecidableEq

structure InstructionMutationRequest where
  Schema : Nat
  ExpectedCurrentHash : String
  ExpectedAvailableHash : String

structure InstructionConfig where
  RepositoryRoot : String
  DataRoot : String
  OutputLanguage : OutputLanguage

structure InstructionSpec where
  Name : String
  Source : String
  Target : String
  Workspace : Bool
  Soul : Bool
  deriving DecidableEq

def instructionSpecs (config : InstructionConfig) : List InstructionSpec :=
  [⟨"profile/AGENTS.md", config.RepositoryRoot ++ "/profile/AGENTS.md",
      config.DataRoot ++ "/AGENTS.md", false, false⟩,
    ⟨"profile/SOUL.md", config.RepositoryRoot ++ "/profile/SOUL.md",
      config.DataRoot ++ "/SOUL.md", false, true⟩,
    ⟨"workspace/AGENTS.md", config.RepositoryRoot ++ "/workspace-template/AGENTS.md",
      config.DataRoot ++ "/workspace/AGENTS.md", true, false⟩]

/-- What `Lstat` finds. -/
inductive InstructionFile where
  | missing
  | irregular
  | regular (data : Bytes)
  deriving DecidableEq

/-- The files of one instruction. A marker is held without the blanks around it, and `some none` is
no JSON of metadata. Only the program writes the last three. -/
structure InstructionFiles where
  source : InstructionFile
  target : InstructionFile
  legacyHash : Option String
  metadata : Option (Option InstructionMetadata)
  baseline : Option Bytes
  available : Option Bytes
  deriving DecidableEq

abbrev InstructionAction := Prog InstructionFiles String

namespace InstructionFiles

def setTarget (data : Bytes) (s : InstructionFiles) : InstructionFiles :=
  { s with target := .regular data }

def setBaseline (data : Bytes) (s : InstructionFiles) : InstructionFiles :=
  { s with baseline := some data }

def setAvailable (data : Option Bytes) (s : InstructionFiles) : InstructionFiles :=
  { s with available := data }

def setMetadata (metadata : InstructionMetadata) (s : InstructionFiles) : InstructionFiles :=
  { s with metadata := some (some metadata) }

end InstructionFiles

/-! ## Reading -/

def instructionKey (name : String) : String :=
  name.map fun c => if c = '/' ∨ c = '.' then '-' else c

/-- The path of a snapshot below the root of the metadata. -/
def snapshotPath (name file : String) : String :=
  "managed/instructions/" ++ instructionKey name ++ "/" ++ file

def readInstructionFile (path : String) : InstructionFile → Except String Bytes
  | .missing => .error ("lstat " ++ path ++ ": no such file or directory")
  | .irregular => .error ("instruction path is not a regular file: " ++ path)
  | .regular data => .ok data

/-- `none` when there is no file. -/
def readInstructionMetadata (name : String) :
    Option (Option InstructionMetadata) → Except String (Option InstructionMetadata)
  | none => .ok none
  | some none => .error "invalid character in instruction metadata"
  | some (some metadata) =>
      if metadata.Schema ≠ 1 ∨ metadata.Name ≠ name ∨ metadata.BaselineHash = "" ∨
          metadata.BaselineSnapshot = "" then
        .error ("invalid instruction metadata: " ++ name)
      else .ok (some metadata)

def canonicalInstruction (spec : InstructionSpec) (data : Bytes) : Bytes :=
  if spec.Soul then canonicalOutputLanguage data else data

/-- The text of a target, with the words of the language. -/
def writeText (spec : InstructionSpec) (language : OutputLanguage) (data : Bytes) :
    Except String Bytes :=
  if spec.Soul then renderOutputLanguageBlock data language else .ok data

section Commands

variable (sha256 : Bytes → Sha256) (language : OutputLanguage) (spec : InstructionSpec)

def instructionHash (data : Bytes) : String := "sha256:" ++ (sha256 data).1

/-! ## Synchronising -/

def instructionResult (metadata : InstructionMetadata)
    (currentHash baselineHash sourceHash : String) (localChanged upstreamChanged : Bool)
    (action : String) : InstructionResult where
  Name := spec.Name
  State :=
    if localChanged && upstreamChanged then "merge_required"
    else if upstreamChanged then "update_available"
    else if localChanged then "customized"
    else "current"
  Ownership := metadata.Ownership
  Action := action
  CurrentHash := currentHash
  BaselineHash := baselineHash
  AvailableHash := sourceHash
  UpdateAvailable := upstreamChanged
  Customized := localChanged || metadata.Ownership == "customized"
  Distribution := metadata.Distribution
  SourceID := metadata.SourceID

/-- The ownership of a text without metadata. -/
def firstOwnership (legacyHash : Option String) (source current : Bytes) : String :=
  let managed := !spec.Workspace &&
    match legacyHash with
    | some marker =>
        marker == instructionHash sha256 current || marker == (sha256 current).1
    | none => instructionHash sha256 current == instructionHash sha256 source
  if managed then "managed" else "customized"

structure Distribution where
  version : String
  sourceID : String

/-- The target, which is installed when there is none. -/
def ensureTarget (sourceData : Bytes) : InstructionFile → InstructionAction Bytes
  | .missing => do
      let currentData ← Prog.lift (writeText spec language sourceData)
      Prog.write (·.setTarget currentData)
      pure currentData
  | target => Prog.lift (readInstructionFile spec.Target target)

/-- The metadata, with a new baseline when there is none. -/
def ensureMetadata (distribution : Distribution) (stamp : String) (files : InstructionFiles)
    (source current : Bytes) : InstructionAction InstructionMetadata := do
  match ← Prog.lift (readInstructionMetadata spec.Name files.metadata) with
  | some metadata => pure metadata
  | none => do
      Prog.write (·.setBaseline current)
      pure {
        Schema := 1
        Name := spec.Name
        Ownership := firstOwnership sha256 spec files.legacyHash source current
        Distribution := distribution.version
        SourceID := distribution.sourceID
        BaselineHash := instructionHash sha256 current
        CurrentHash := instructionHash sha256 current
        AvailableHash := ""
        BaselineSnapshot := snapshotPath spec.Name "baseline.md"
        AvailableSnapshot := ""
        InstalledAt := stamp
        UpdatedAt := stamp }

/-- Whether the release takes the place of a text that nobody changed. -/
def updatesManaged (ownership currentHash baselineHash sourceHash : String) : Bool :=
  !spec.Workspace && currentHash == baselineHash && sourceHash != baselineHash &&
    ownership == "managed"

/-- What synchronising has come to before the metadata are written. -/
structure Synced where
  current : Bytes
  baselineHash : String
  localChanged : Bool
  upstreamChanged : Bool
  action : String
  metadata : InstructionMetadata

def updateFiles (metadata : InstructionMetadata) (baselineHash : String)
    (source current : Bytes) : InstructionAction Synced := do
  let currentHash := instructionHash sha256 current
  let sourceHash := instructionHash sha256 source
  let localChanged := currentHash != baselineHash
  let upstreamChanged := sourceHash != baselineHash
  if updatesManaged spec metadata.Ownership currentHash baselineHash sourceHash then do
    let writeData ← Prog.lift (writeText spec language source)
    Prog.write (·.setTarget writeData)
    Prog.write (·.setBaseline source)
    Prog.write (·.setAvailable none)
    pure ⟨source, sourceHash, false, false, "updated",
      { metadata with AvailableHash := "", AvailableSnapshot := "" }⟩
  else if upstreamChanged then do
    Prog.write (·.setAvailable (some source))
    pure ⟨current, baselineHash, localChanged, upstreamChanged, "review_required",
      { metadata with
        AvailableHash := sourceHash, AvailableSnapshot := snapshotPath spec.Name "available.md" }⟩
  else do
    Prog.write (·.setAvailable none)
    pure ⟨current, baselineHash, localChanged, upstreamChanged, "unchanged",
      { metadata with AvailableHash := "", AvailableSnapshot := "" }⟩

/-- The words of the language are written again when they differ from the text that was read. -/
def refreshTarget (current currentData : Bytes) : InstructionAction Unit :=
  if spec.Soul then do
    let rendered ← Prog.lift (renderOutputLanguageBlock current language)
    if rendered ≠ currentData then Prog.write (·.setTarget rendered)
  else pure ()

/-- Everything before the metadata are written. -/
def syncFiles (distribution : Distribution) (stamp : String) :
    InstructionAction (Bytes × Synced) := do
  let files ← Prog.get
  let sourceData ← Prog.lift (readInstructionFile spec.Source files.source)
  let currentData ← ensureTarget language spec sourceData files.target
  let source := canonicalInstruction spec sourceData
  let current := canonicalInstruction spec currentData
  let metadata ← ensureMetadata sha256 spec distribution stamp files source current
  match (← Prog.get).baseline with
  | none =>
      Prog.fail ("read instruction baseline " ++ spec.Name ++ ": no such file or directory")
  | some baselineData =>
      if instructionHash sha256 baselineData ≠ metadata.BaselineHash then
        Prog.fail ("instruction baseline hash mismatch: " ++ spec.Name)
      else do
        let synced ← updateFiles sha256 language spec metadata
          (instructionHash sha256 baselineData) source current
        refreshTarget language spec synced.current currentData
        pure (source, synced)

/-- The metadata at the end. -/
def Synced.recorded (synced : Synced) (distribution : Distribution) (stamp : String) :
    InstructionMetadata :=
  { synced.metadata with
    Ownership := if synced.localChanged then "customized" else synced.metadata.Ownership
    Distribution := distribution.version
    SourceID := distribution.sourceID
    BaselineHash := synced.baselineHash
    CurrentHash := instructionHash sha256 synced.current
    UpdatedAt := stamp }

def syncInstruction (distribution : Distribution) (stamp : String) :
    InstructionAction InstructionResult := do
  let (source, synced) ← syncFiles sha256 language spec distribution stamp
  let metadata := synced.recorded sha256 distribution stamp
  Prog.write (·.setMetadata metadata)
  pure (instructionResult spec metadata (instructionHash sha256 synced.current)
    synced.baselineHash (instructionHash sha256 source) synced.localChanged
    synced.upstreamChanged synced.action)

/-! ## Review -/

def inspectInstruction (s : InstructionFiles) : Except String InstructionResult := do
  let current ← readInstructionFile spec.Target s.target
  let source ← readInstructionFile spec.Source s.source
  match ← readInstructionMetadata spec.Name s.metadata, s.baseline with
  | none, _ => .error ("lstat " ++ snapshotPath spec.Name "metadata.json" ++
      ": no such file or directory")
  | some _, none => .error ("lstat " ++ snapshotPath spec.Name "baseline.md" ++
      ": no such file or directory")
  | some metadata, some baseline => do
      let currentHash := instructionHash sha256 (canonicalInstruction spec current)
      let baselineHash := instructionHash sha256 baseline
      let sourceHash := instructionHash sha256 (canonicalInstruction spec source)
      if baselineHash ≠ metadata.BaselineHash then
        .error ("instruction baseline hash mismatch: " ++ spec.Name)
      else
        .ok (instructionResult spec metadata currentHash baselineHash sourceHash
          (currentHash != baselineHash) (sourceHash != baselineHash) "none")

/-- The copy that is to be reviewed, or the text of the release. -/
def readAvailable (s : InstructionFiles) : Except String Bytes :=
  match s.available with
  | some available => .ok available
  | none => (readInstructionFile spec.Source s.source).map (canonicalInstruction spec)

end Commands

/-! ## Differences -/

/-- The length of a longest common subsequence. -/
def lcs : List Line → List Line → Nat
  | [], _ => 0
  | l :: ls, rs => go l (lcs ls) rs
where
  go (l : Line) (below : List Line → Nat) : List Line → Nat
    | [] => 0
    | r :: rs =>
        if l = r then below rs + 1 else max (below (r :: rs)) (go l below rs)

/-- The lines of a difference with the mark of each. -/
def diffLines : List Line → List Line → List (UInt8 × Line)
  | [], rs => rs.map (0x2B, ·)
  | l :: ls, rs => go l ls (diffLines ls) rs
where
  go (l : Line) (ls : List Line) (below : List Line → List (UInt8 × Line)) :
      List Line → List (UInt8 × Line)
    | [] => (0x2D, l) :: below []
    | r :: rs =>
        if l = r then (0x20, l) :: below rs
        else if lcs (l :: ls) rs ≤ lcs ls (r :: rs) then (0x2D, l) :: below (r :: rs)
        else (0x2B, r) :: go l ls below rs

/-- The lines of a text without its last line break. -/
def trimmedLines (data : Bytes) : List Line :=
  lines (if data.getLast? = some newline then data.dropLast else data)

def simpleInstructionDiff (fromName : String) (old : Bytes) (toName : String) (new : Bytes) :
    Bytes :=
  if old = new then []
  else text ("--- " ++ fromName ++ "\n+++ " ++ toName ++ "\n") ++
    (diffLines (trimmedLines old) (trimmedLines new)).flatMap fun d => d.1 :: d.2 ++ [newline]

section Commands

variable (sha256 : Bytes → Sha256) (language : OutputLanguage) (spec : InstructionSpec)

def diffInstruction (s : InstructionFiles) : Except String InstructionDiffResult := do
  let status ← inspectInstruction sha256 spec s
  match s.baseline with
  | none => .error ("lstat " ++ snapshotPath spec.Name "baseline.md" ++
      ": no such file or directory")
  | some baseline => do
      let current ← readInstructionFile spec.Target s.target
      let available ← readAvailable spec s
      let localDiff :=
        simpleInstructionDiff "baseline" baseline "local" (canonicalInstruction spec current)
      let upstreamDiff := simpleInstructionDiff "baseline" baseline "upstream" available
      .ok ⟨1, true, "diff", spec.Name, status.State, localDiff, upstreamDiff,
        localDiff ++ upstreamDiff⟩

/-! ## Mutations -/

/-- The text that an action gives, and its ownership. -/
def mutatedText (action : String) (baseline : Option Bytes) (current available : Bytes) :
    Except String (Bytes × String) :=
  if action = "keep" then .ok (current, "customized")
  else if action = "reset" then
    .ok (available, if spec.Workspace then "customized" else "managed")
  else if action = "merge" then
    match baseline with
    | none => .error ("lstat " ++ snapshotPath spec.Name "baseline.md" ++
        ": no such file or directory")
    | some baseline => (mergeInstructionLines baseline current available).map (·, "customized")
  else .error ("unsupported instruction action \"" ++ action ++ "\"")

/-- What a mutation has come to before it writes. -/
structure Mutated where
  metadata : InstructionMetadata
  available : Bytes
  result : Bytes
  ownership : String

/-- The checks of a mutation. -/
def prepareMutation (action : String) (request : InstructionMutationRequest)
    (s : InstructionFiles) : Except String Mutated := do
  if request.Schema ≠ 1 then .error "invalid instruction mutation request"
  else
    let status ← inspectInstruction sha256 spec s
    if request.ExpectedCurrentHash ≠ status.CurrentHash ∨
        request.ExpectedAvailableHash ≠ status.AvailableHash then
      .error ("instruction changed since review: " ++ spec.Name)
    else
      match ← readInstructionMetadata spec.Name s.metadata with
      | none => .error ("lstat " ++ snapshotPath spec.Name "metadata.json" ++
          ": no such file or directory")
      | some metadata => do
          let available ← readAvailable spec s
          let current ← readInstructionFile spec.Target s.target
          let (result, ownership) ← mutatedText spec action s.baseline
            (canonicalInstruction spec current) available
          .ok ⟨metadata, available, result, ownership⟩

/-- The metadata at the end. -/
def Mutated.recorded (mutated : Mutated) (stamp : String) : InstructionMetadata :=
  { mutated.metadata with
    Ownership := mutated.ownership
    BaselineHash := instructionHash sha256 mutated.available
    CurrentHash := instructionHash sha256 mutated.result
    AvailableHash := ""
    AvailableSnapshot := ""
    UpdatedAt := stamp }

/-- The files that are written before the metadata. -/
def mutateFiles (action : String) (writeData available : Bytes) : InstructionAction Unit := do
  if action ≠ "keep" then Prog.write (·.setTarget writeData)
  Prog.write (·.setBaseline available)
  Prog.write (·.setAvailable none)

/-- `backup` is what `CreateRollback` gives. -/
def mutateInstruction (action : String) (request : InstructionMutationRequest)
    (backup : Except String String) (stamp : String) :
    InstructionAction InstructionMutationResult := do
  let files ← Prog.get
  let mutated ← Prog.lift (prepareMutation sha256 spec action request files)
  let archive ← Prog.lift backup
  let writeData ← Prog.lift (writeText spec language mutated.result)
  mutateFiles action writeData mutated.available
  let metadata := mutated.recorded sha256 stamp
  Prog.write (·.setMetadata metadata)
  pure ⟨1, true, action, spec.Name,
    if metadata.CurrentHash = metadata.BaselineHash then "current" else "customized",
    metadata.CurrentHash, archive, 0⟩

end Commands

/-! ## All instructions -/

/-- The files of each instruction by its name. -/
abbrev Instructions := String → InstructionFiles

section Service

variable (sha256 : Bytes → Sha256) (config : InstructionConfig)

/-- A program on the files of one instruction. -/
def onFiles {α : Type} (name : String) (p : InstructionAction α) : Prog Instructions String α :=
  Prog.focus (· name) (fun files state => Function.update state name files) p

def instructionStatusEnvelope (action : String) (results : List InstructionResult) :
    InstructionStatusResult :=
  let sorted := results.mergeSort fun a b => decide (a.Name ≤ b.Name)
  ⟨1, true, action, sorted.any (·.UpdateAvailable), sorted⟩

/-- An instruction that the release does not have is left out. -/
def syncAll (distribution : Distribution) (stamp : String) :
    List InstructionSpec → Prog Instructions String (List InstructionResult)
  | [] => pure []
  | spec :: specs => do
      let state ← Prog.get
      if (state spec.Name).source = .missing then syncAll distribution stamp specs
      else do
        let result ← onFiles spec.Name
          (syncInstruction sha256 config.OutputLanguage spec distribution stamp)
        let results ← syncAll distribution stamp specs
        pure (result :: results)

def SyncInstructions (distribution : Distribution) (stamp : String) :
    Prog Instructions String InstructionStatusResult := do
  let results ← syncAll sha256 config distribution stamp (instructionSpecs config)
  pure (instructionStatusEnvelope "sync" results)

def instructionSpecByName (name : String) : Except String InstructionSpec :=
  match (instructionSpecs config).find? (·.Name == name) with
  | some spec => .ok spec
  | none => .error ("unknown instruction \"" ++ name ++
      "\"; use profile/AGENTS.md, profile/SOUL.md, or workspace/AGENTS.md")

def InstructionDiff (name : String) (state : Instructions) : Except String InstructionDiffResult := do
  let spec ← instructionSpecByName config name
  diffInstruction sha256 spec (state spec.Name)

def MutateInstruction (name action : String) (request : InstructionMutationRequest)
    (backup : Except String String) (stamp : String) :
    Prog Instructions String InstructionMutationResult := do
  if request.Schema ≠ 1 then Prog.fail "invalid instruction mutation request"
  else do
    let spec ← Prog.lift (instructionSpecByName config name)
    onFiles spec.Name
      (mutateInstruction sha256 config.OutputLanguage spec action request backup stamp)

end Service

end Openlia.Instructions
