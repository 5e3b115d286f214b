import Openlia.Lib.Faults
import Openlia.Operator.Skills.Patch
import Openlia.Operator.Skills.Sync

/-! # Applying a skill migration

A pending proposal moves a forked skill to a new base. When all that the plan was made
from still holds, the fork, its base, its patch and two records are replaced one after
the other; an error on the way puts back what had been copied before.
-/

namespace Openlia.Skills

open Lib Faulty

def migrationProtocolSchema : Nat := 1

structure SkillMigrationProposal where
  Schema : Nat
  ID : String
  Skill : String
  State : String
  OldBaseHash : String
  CurrentForkHash : String
  OldPatchHash : String
  NewBaseHash : String
  NewPatchHash : String
  ProposedForkHash : String
  Conflicts : List String
  CreatedAt : String
  AppliedAt : String
  RejectedAt : String
  deriving DecidableEq

structure SkillMigrationResult where
  Proposal : String
  Skill : String
  State : String
  ForkHash : String
  PatchHash : String
  deriving DecidableEq

/-- What a migration touches. -/
structure Artefacts where
  fork : Option Dir
  base : Option Dir
  patch : Option Bytes
  metadata : Option Bytes
  proposal : Option Bytes
  lastChange : Option Bytes

/-- The two directories that are replaced. -/
inductive Tree where
  | fork
  | base

def Artefacts.tree (a : Artefacts) : Tree → Option Dir
  | .fork => a.fork
  | .base => a.base

def Artefacts.setTree (which : Tree) (tree : Option Dir) (a : Artefacts) : Artefacts :=
  match which with
  | .fork => { a with fork := tree }
  | .base => { a with base := tree }

/-- An error, and how many calls had been made when the rollback began; `none` when
nothing had been replaced. -/
structure Failure where
  reason : String
  rollbackAt : Option Nat
  deriving DecidableEq

abbrev Migration := Faulty Artefacts Failure

/-- What a run is given: the codecs, the bundled skill and the patch of the proposal, the
texts it writes, and what a copy leaves that does not come to its end. -/
structure MigrationHost where
  sha256 : Bytes → Sha256
  readProposal : Bytes → Option SkillMigrationProposal
  writeProposal : SkillMigrationProposal → Bytes
  readMetadata : Bytes → Option SkillMetadata
  writeMetadata : SkillMetadata → Bytes
  patchBytes : SkillPatch → Bytes
  bundled : Option Dir
  proposedPatch : Option SkillPatch
  distribution : String × String
  now : String
  changeRecord : Bytes
  partialCopy : Dir → Dir

section Run

variable (host : MigrationHost) (fails : Nat → Bool)

def refuse {α : Type} (reason : String) : Migration α := throw ⟨reason, none⟩

/-- A check, and what comes of its failure. -/
def require (c : Prop) [Decidable c] (otherwise : Migration Unit) : Migration Unit :=
  if c then pure () else otherwise

def orRefuse {α : Type} (reason : String) : Option α → Migration α
  | none => refuse reason
  | some a => pure a

/-- A call that touches nothing of a migration. -/
def attempt (reason : String) : Migration Unit := call fails ⟨reason, none⟩ id

/-- `AtomicWriteFile`: whatever fails on the way, the file is the old one. -/
def AtomicWriteFile (put : Artefacts → Artefacts) : Migration Unit :=
  call fails ⟨"write file", none⟩ put

/-- The file that a path names, read whole. -/
def readFile {α : Type} (reason : String) (file : Artefacts → Option α) : Migration α := do
  attempt fails reason
  let s ← get
  orRefuse reason (file s.state)

def CopyDir (which : Tree) (source : Dir) : Migration Unit := do
  attempt fails "stat source directory"
  call fails ⟨"create destination directory", none⟩ (Artefacts.setTree which (some .empty))
  callOr fails ⟨"copy directory", none⟩
    (Artefacts.setTree which (some (host.partialCopy source)))
    (Artefacts.setTree which (some source))

/-- The temporary directories beside the destination are left out. -/
def AtomicCopyDir (which : Tree) (source : Dir) : Migration Unit := do
  attempt fails "source directory does not exist"
  attempt fails "destination directory does not exist"
  attempt fails "create directory replacement"
  attempt fails "copy directory"
  attempt fails "create directory backup"
  attempt fails "prepare directory backup"
  let s ← get
  call fails ⟨"move directory aside", none⟩ (Artefacts.setTree which none)
  tryCatch
    (call fails ⟨"activate directory replacement", none⟩ (Artefacts.setTree which (some source)))
    fun e => do
      ignore (call fails ⟨"move directory back", none⟩
        (Artefacts.setTree which (s.state.tree which)))
      throw e
  attempt fails "remove replaced directory"

def replaceDirectory (which : Tree) (source : Dir) : Migration Unit := do
  attempt fails "stat destination"
  let s ← get
  if (s.state.tree which).isNone then CopyDir host fails which source
  else AtomicCopyDir fails which source

def markProposalStale (proposal : SkillMigrationProposal) (reason : String) :
    Migration Unit := do
  let stale := { proposal with State := "stale", RejectedAt := host.now }
  AtomicWriteFile fails fun a => { a with proposal := some (host.writeProposal stale) }
  refuse ("migration proposal is stale: " ++ reason)

/-- What the checks have found, with the copies that a rollback needs. -/
structure Plan where
  proposal : SkillMigrationProposal
  metadata : SkillMetadata
  source : Dir
  patch : SkillPatch
  proposedTree : Dir
  oldFork : Dir
  oldBase : Dir
  oldPatch : Bytes
  oldMetadata : Bytes
  oldProposal : Bytes

/-- The part of `ApplySkillMigration` before the first replacement. -/
def checkMigration (proposalID : String) : Migration Plan := do
  attempt fails "paths"
  require (validateSafeComponent proposalID "proposal" = .ok ()) (refuse "invalid proposal")
  let proposalData ← readFile fails "read migration proposal" Artefacts.proposal
  let proposal ← orRefuse "parse migration proposal" (host.readProposal proposalData)
  require (proposal.Schema = migrationProtocolSchema ∧ proposal.ID = proposalID ∧
    proposal.State = "pending") (refuse "migration proposal is not pending")
  require (proposal.Conflicts = [])
    (refuse "migration proposal still has unresolved conflicts")
  require (validateSafeComponent proposal.Skill "skill" = .ok ()) (refuse "invalid skill")
  attempt fails "stop Hermes for skill mutation"
  let metadataData ← readFile fails "read metadata" Artefacts.metadata
  let metadata ← orRefuse "invalid skill provenance" (host.readMetadata metadataData)
  require (validSkillMetadata metadata proposal.Skill = true) (refuse "invalid skill provenance")
  require (metadata.Ownership = "forked") (refuse ("skill is not forked: " ++ proposal.Skill))
  require (proposal.OldBaseHash = metadata.ContentSHA256)
    (markProposalStale host fails proposal "fork base changed")
  let current ← readFile fails "stat directory" Artefacts.fork
  require ("sha256:" ++ directoryHash host.sha256 current = proposal.CurrentForkHash)
    (markProposalStale host fails proposal "current fork changed")
  let source ← orRefuse ("skill is not bundled: " ++ proposal.Skill) host.bundled
  attempt fails "walk directory"
  require ("sha256:" ++ directoryHash host.sha256 source = proposal.NewBaseHash)
    (markProposalStale host fails proposal "upstream base changed")
  attempt fails "read skill patch"
  let patch ← orRefuse "parse skill patch" host.proposedPatch
  require (validateSkillPatch host.sha256 patch = .ok ()) (refuse "invalid skill patch")
  require (patch.Skill = proposal.Skill ∧ patch.BaseHash = proposal.NewBaseHash)
    (refuse "migration proposal patch does not match the proposal")
  require (bytesHash host.sha256 (host.patchBytes patch) = proposal.NewPatchHash)
    (refuse "migration proposal patch hash mismatch")
  attempt fails "remove validated skill"
  let proposedTree ← orRefuse "validate migration patch"
    (ApplySkillPatch host.sha256 source none patch).toOption
  attempt fails "validate migration patch"
  require ("sha256:" ++ directoryHash host.sha256 proposedTree = proposal.ProposedForkHash)
    (refuse "migration proposal fork hash mismatch")
  attempt fails "create rollback"
  let oldMetadata ← readFile fails "read metadata" Artefacts.metadata
  let oldPatch ← readFile fails "read patch" Artefacts.patch
  attempt fails "create transaction directory"
  let oldFork ← readFile fails "copy fork" Artefacts.fork
  let oldBase ← readFile fails "copy base" Artefacts.base
  pure { proposal := proposal, metadata := metadata, source := source, patch := patch,
         proposedTree := proposedTree, oldFork := oldFork, oldBase := oldBase,
         oldPatch := oldPatch, oldMetadata := oldMetadata, oldProposal := proposalData }

/-- The metadata of the migrated fork. -/
def migratedMetadata (plan : Plan) : SkillMetadata :=
  { plan.metadata with
    ContentSHA256 := plan.proposal.NewBaseHash
    DistributionVersion := host.distribution.1
    SourceID := host.distribution.2
    PatchSHA256 := bytesHash host.sha256 (host.patchBytes plan.patch)
    ForkSHA256 := plan.proposal.ProposedForkHash
    UpdatedAt := host.now }

def appliedProposal (plan : Plan) : SkillMigrationProposal :=
  { plan.proposal with State := "applied", AppliedAt := host.now }

/-- The replacements. -/
def replaceArtefacts (plan : Plan) : Migration Unit := do
  replaceDirectory host fails .fork plan.proposedTree
  replaceDirectory host fails .base plan.source
  AtomicWriteFile fails fun a => { a with patch := some (host.patchBytes plan.patch) }
  AtomicWriteFile fails fun a =>
    { a with metadata := some (host.writeMetadata (migratedMetadata host plan)) }
  AtomicWriteFile fails fun a =>
    { a with proposal := some (host.writeProposal (appliedProposal host plan)) }
  -- `RecordChange` writes its record before it sets the owner.
  AtomicWriteFile fails fun a => { a with lastChange := some host.changeRecord }
  attempt fails "set owner"

def rollbackSkillMigration (plan : Plan) : Migration Unit := do
  ignore (replaceDirectory host fails .fork plan.oldFork)
  ignore (replaceDirectory host fails .base plan.oldBase)
  ignore (AtomicWriteFile fails fun a => { a with patch := some plan.oldPatch })
  ignore (AtomicWriteFile fails fun a => { a with metadata := some plan.oldMetadata })
  ignore (AtomicWriteFile fails fun a => { a with proposal := some plan.oldProposal })

def ApplySkillMigration (proposalID : String) : Migration SkillMigrationResult := do
  let plan ← checkMigration host fails proposalID
  tryCatch (replaceArtefacts host fails plan) fun e => do
    let s ← get
    rollbackSkillMigration host fails plan
    throw { e with rollbackAt := some s.calls }
  pure { Proposal := proposalID
         Skill := plan.proposal.Skill
         State := (appliedProposal host plan).State
         ForkHash := plan.proposal.ProposedForkHash
         PatchHash := bytesHash host.sha256 (host.patchBytes plan.patch) }

end Run

end Openlia.Skills
