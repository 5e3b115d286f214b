import Openlia.Lib.Crash
import Openlia.Operator.Skills.Patch

/-! # Synchronising a skill

A bundled skill is installed, updated or left alone. The directory, the snapshot it was
installed from, its patch and its metadata are written one after the other.
-/

namespace Openlia.Skills

open Lib Crash

/-- What `Lstat` finds at the path of a skill. -/
inductive SkillEntry where
  | directory (t : Dir)
  /-- A regular file or a link. -/
  | other

structure SkillMetadata where
  Schema : Nat
  Skill : String
  Ownership : String
  Distribution : String
  DistributionVersion : String
  SourceID : String
  ArtifactPath : String
  HashScope : String
  ContentSHA256 : String
  BaseSnapshot : String
  PatchPath : String
  PatchSHA256 : String
  ForkSHA256 : String
  ForkedAt : String
  InstalledAt : String
  UpdatedAt : String
  deriving DecidableEq

/-- The files of one skill. Metadata that is no JSON of its kind is `some none`. The directories
that a replacement makes beside its destination are left out; nothing reads them. -/
structure SkillFiles where
  skill : Option SkillEntry
  base : Option SkillEntry
  patch : Option SkillPatch
  metadata : Option (Option SkillMetadata)

abbrev SkillAction := Prog SkillFiles String

/-! ## Metadata -/

structure MetadataInfo where
  State : String
  Ownership : String
  Hash : String
  Version : String
  Source : String
  ForkHash : String
  InstalledAt : String
  UpdatedAt : String
  Reason : String
  deriving DecidableEq

def distributionName : String := "openlia-personal-os"

def hashScope : String := "skill-files-v1"

def artifactPath (skill : String) : String := "profile/skills/" ++ skill

def baseSnapshot (skill : String) : String := "managed/skills/" ++ skill ++ "/base"

def patchPath (skill : String) : String := "managed/skills/" ++ skill ++ "/customization.patch"

def validSkillMetadata (metadata : SkillMetadata) (expectedSkill : String) : Bool :=
  if metadata.Schema ≠ 2 ∨ metadata.Skill ≠ expectedSkill ∨
      (metadata.Ownership ≠ "managed" ∧ metadata.Ownership ≠ "forked") ∨
      (metadata.Distribution ≠ distributionName ∧ metadata.Distribution ≠ "openlia") ∨
      metadata.DistributionVersion = "" ∨ metadata.SourceID = "" ∨
      metadata.ArtifactPath ≠ artifactPath expectedSkill ∨ metadata.HashScope ≠ hashScope ∨
      contentHashPattern metadata.ContentSHA256 = false ∨
      metadata.BaseSnapshot ≠ baseSnapshot expectedSkill ∨
      metadata.PatchPath ≠ patchPath expectedSkill ∨
      contentHashPattern metadata.PatchSHA256 = false ∨ metadata.InstalledAt = "" ∨
      metadata.UpdatedAt = "" then
    false
  else if metadata.Ownership = "forked" then
    contentHashPattern metadata.ForkSHA256 && metadata.ForkedAt ≠ ""
  else metadata.ForkSHA256 = "" && metadata.ForkedAt = ""

def metadataInfoFromMetadata (metadata : SkillMetadata) : MetadataInfo where
  State := "valid"
  Ownership := metadata.Ownership
  Hash := metadata.ContentSHA256
  Version := metadata.DistributionVersion
  Source := metadata.SourceID
  ForkHash := metadata.ForkSHA256
  InstalledAt := metadata.InstalledAt
  UpdatedAt := metadata.UpdatedAt
  Reason := ""

/-- Metadata that says no more than why it is none. -/
def noMetadata (state reason : String) : MetadataInfo := ⟨state, "", "", "", "", "", "", "", reason⟩

def readSkillMetadata (file : Option (Option SkillMetadata)) (expectedSkill : String) :
    MetadataInfo :=
  match file with
  | none => noMetadata "unmanaged" "metadata_missing"
  | some none => noMetadata "invalid" "invalid_provenance"
  | some (some metadata) =>
      if validSkillMetadata metadata expectedSkill then metadataInfoFromMetadata metadata
      else noMetadata "invalid" "invalid_provenance"

/-! ## Results -/

structure SkillResult where
  Name : String
  State : String
  Action : String
  ResultState : String
  Reason : String
  Provenance : String
  ManagedSource : String
  AvailableSource : String
  InstalledVersion : String
  AvailableVersion : String
  ManagedHash : String
  CurrentHash : String
  AvailableHash : String
  InstalledAt : String
  UpdatedAt : String
  deriving DecidableEq

def blockedSkillResultWithCurrent (name state provenance reason : String)
    (metadata : MetadataInfo) (current : String) : SkillResult :=
  ⟨name, state, "blocked", state, reason, provenance, metadata.Source, "", metadata.Version, "",
    metadata.Hash, current, "", metadata.InstalledAt, metadata.UpdatedAt⟩

def blockedSkillResult (name state provenance reason : String) (metadata : MetadataInfo) :
    SkillResult :=
  blockedSkillResultWithCurrent name state provenance reason metadata ""

def skillResult (name state action resultState reason provenance : String)
    (managed : MetadataInfo) (availableVersion currentHash availableHash : String) :
    SkillResult :=
  ⟨name, state, action, resultState, reason, provenance, managed.Source, "", managed.Version,
    availableVersion, managed.Hash, currentHash, availableHash, managed.InstalledAt,
    managed.UpdatedAt⟩

/-- A result that shows the metadata and both versions. -/
def statusResult (name version sourceID state action reason provenance : String)
    (metadata : MetadataInfo) (currentHash availableHash : String) : SkillResult :=
  ⟨name, state, action, state, reason, provenance, metadata.Source, sourceID, metadata.Version,
    version, metadata.Hash, currentHash, availableHash, metadata.InstalledAt, metadata.UpdatedAt⟩

section Sync

variable (sha256 : Bytes → Sha256)

/-- The hash as it is recorded. -/
def contentHash (t : Dir) : String := "sha256:" ++ directoryHash sha256 t

/-! ## Status -/

/-- The hash of an installed directory; anything else has none. -/
def currentHash (skill : Option SkillEntry) : String :=
  match skill with
  | some (.directory t) => contentHash sha256 t
  | _ => ""

/-- The source is missing when the skill is not bundled. -/
def statusSkill (files : SkillFiles) (source : Option Dir) (name version sourceID : String) :
    Except String SkillResult :=
  let metadata := readSkillMetadata files.metadata name
  let available := (source.map (contentHash sha256)).getD ""
  let current := currentHash sha256 files.skill
  let result := statusResult name version sourceID
  match files.skill with
  | none =>
      if source.isNone then .error ("skill is not bundled or installed: " ++ name)
      else .ok (result "new" "not_installed" "skill_not_installed" "unavailable" metadata current
        available)
  | some _ =>
      if source.isNone then
        .ok { result "unmanaged" "blocked" "distribution_removed" metadata.State metadata current
          available with AvailableSource := "" }
      else if metadata.State = "valid" ∧ metadata.Ownership = "forked" then
        if current ≠ metadata.ForkHash then
          .ok (result "forked" "blocked" "fork_dirty" "valid" metadata current available)
        else if available ≠ "" ∧ available ≠ metadata.Hash then
          .ok (result "forked" "update_available" "distribution_changed" "valid" metadata current
            available)
        else
          .ok (result "forked" "unchanged" "fork_unchanged" "valid" metadata current available)
      else if metadata.State = "valid" ∧ current = metadata.Hash then
        if current ≠ available then
          .ok (result "managed" "update_available" "distribution_changed" "valid" metadata current
            available)
        else
          .ok (result "managed" "unchanged" "managed_artifact_unchanged" "valid" metadata current
            available)
      else if metadata.State = "valid" then
        .ok (result "customized" "blocked" "local_modifications_detected" "valid" metadata current
          available)
      else
        .ok (result "unmanaged" "blocked" metadata.Reason metadata.State metadata current
          available)

/-! ## Copies -/

def SkillFiles.setSkill (files : SkillFiles) (e : Option SkillEntry) : SkillFiles :=
  { files with skill := e }

def SkillFiles.setBase (files : SkillFiles) (e : Option SkillEntry) : SkillFiles :=
  { files with base := e }

/-- The walk of a copy; `copied` are the directories it passes through. -/
def copyDir (put : SkillFiles → Option SkillEntry → SkillFiles) (source : Dir) :
    List Dir → SkillAction Unit
  | [] => Prog.write (put · (some (.directory source)))
  | t :: rest => do
      Prog.write (put · (some (.directory t)))
      copyDir put source rest

/-- The destination is moved aside before the complete copy takes its place. -/
def atomicCopyDir (put : SkillFiles → Option SkillEntry → SkillFiles) (source : Dir)
    (destination : Option SkillEntry) : SkillAction Unit :=
  match destination with
  | some (.directory _) => do
      Prog.write (put · none)
      Prog.write (put · (some (.directory source)))
  | _ => Prog.fail "destination directory does not exist"

def replaceBase (source : Dir) (copied : List Dir) : SkillAction Unit := do
  let files ← Prog.get
  match files.base with
  | none => copyDir SkillFiles.setBase source copied
  | some e => atomicCopyDir SkillFiles.setBase source (some e)

/-! ## Synchronisation -/

/-- What the calls outside the modelled files give. -/
structure SyncCalls where
  copiedSkill : List Dir
  copiedBase : List Dir
  /-- `json.Marshal` of a patch with its line break. -/
  encode : SkillPatch → Bytes
  stamp : { s : String // s ≠ "" }
  provision : Option String

def newMetadata (calls : SyncCalls) (name hash version source : String) : SkillMetadata where
  Schema := 2
  Skill := name
  Ownership := "managed"
  Distribution := distributionName
  DistributionVersion := version
  SourceID := source
  ArtifactPath := artifactPath name
  HashScope := hashScope
  ContentSHA256 := hash
  BaseSnapshot := baseSnapshot name
  PatchPath := patchPath name
  PatchSHA256 := ""
  ForkSHA256 := ""
  ForkedAt := ""
  InstalledAt := calls.stamp
  UpdatedAt := calls.stamp

/-- The patch between the snapshot and the directory as they are now. -/
def generatedPatch (files : SkillFiles) (name : String) : Except String SkillPatch :=
  match files.base, files.skill with
  | some (.directory base), some (.directory current) => GenerateSkillPatch sha256 base current name
  | _, _ => .error "directory does not exist"

def writeSkillBaseline (calls : SyncCalls) (source : Dir) (name : String)
    (metadata : SkillMetadata) : SkillAction SkillMetadata := do
  replaceBase source calls.copiedBase
  let files ← Prog.get
  let patch ← Prog.lift (generatedPatch sha256 files name)
  Prog.lift (validateSkillPatch sha256 patch)
  Prog.write fun files => { files with patch := some patch }
  pure { metadata with PatchSHA256 := bytesHash sha256 (calls.encode patch), ForkSHA256 := "" }

def writeSkillMetadata (metadata : SkillMetadata) : SkillAction Unit :=
  Prog.write fun files => { files with metadata := some (some metadata) }

def installSkill (calls : SyncCalls) (source : Dir) (name version sourceID : String) :
    SkillAction SkillResult := do
  let sourceHash := contentHash sha256 source
  copyDir SkillFiles.setSkill source calls.copiedSkill
  let written ← writeSkillBaseline sha256 calls source name
    (newMetadata calls name sourceHash version sourceID)
  writeSkillMetadata written
  Prog.refuse calls.provision
  let info := metadataInfoFromMetadata written
  pure (skillResult name "new" "installed" "managed" "installed_from_distribution" "created" info
    info.Version sourceHash sourceHash)

def updateSkill (calls : SyncCalls) (source current : Dir) (name version sourceID : String)
    (metadata : MetadataInfo) : SkillAction SkillResult := do
  let sourceHash := contentHash sha256 source
  atomicCopyDir SkillFiles.setSkill source (some (.directory current))
  let written ← writeSkillBaseline sha256 calls source name
    { newMetadata calls name sourceHash version sourceID with InstalledAt := metadata.InstalledAt }
  writeSkillMetadata written
  let info := metadataInfoFromMetadata written
  pure (skillResult name "managed" "updated" "managed" "managed_artifact_updated" "valid" info
    info.Version sourceHash sourceHash)

/-- What happens to an installed directory. -/
def syncDirectory (calls : SyncCalls) (source current : Dir) (name version sourceID : String)
    (metadata : MetadataInfo) : SkillAction SkillResult :=
  let sourceHash := contentHash sha256 source
  let currentHash := contentHash sha256 current
  if metadata.State = "valid" ∧ metadata.Ownership = "forked" then
    if metadata.ForkHash = "" ∨ currentHash ≠ metadata.ForkHash then
      pure (blockedSkillResultWithCurrent name "forked" "valid" "fork_dirty" metadata currentHash)
    else if sourceHash ≠ metadata.Hash then
      pure (statusResult name version sourceID "forked" "update_available" "distribution_changed"
        "valid" metadata currentHash sourceHash)
    else
      pure (statusResult name version sourceID "forked" "unchanged" "fork_unchanged" "valid"
        metadata currentHash sourceHash)
  else if metadata.State = "valid" ∧ currentHash = metadata.Hash then
    if currentHash = sourceHash then
      pure (skillResult name "managed" "unchanged" "managed" "managed_artifact_unchanged" "valid"
        metadata metadata.Version currentHash sourceHash)
    else updateSkill sha256 calls source current name version sourceID metadata
  else if metadata.State = "valid" then
    pure (blockedSkillResultWithCurrent name "customized" "valid" "local_modifications_detected"
      metadata currentHash)
  else
    pure (blockedSkillResultWithCurrent name "unmanaged" metadata.State metadata.Reason metadata
      currentHash)

def syncSkill (calls : SyncCalls) (source : Dir) (name version sourceID : String) :
    SkillAction SkillResult := do
  let files ← Prog.get
  let metadata := readSkillMetadata files.metadata name
  match files.skill with
  | none => installSkill sha256 calls source name version sourceID
  | some .other =>
      if metadata.State = "valid" then
        pure (blockedSkillResult name "customized" "valid" "runtime_skill_shape_changed" metadata)
      else
        pure (blockedSkillResult name "unmanaged" metadata.State metadata.Reason metadata)
  | some (.directory current) =>
      syncDirectory sha256 calls source current name version sourceID metadata

end Sync

end Openlia.Skills
