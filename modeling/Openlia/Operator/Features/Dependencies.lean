import Openlia.Lib.DependencyWalk
import Openlia.Operator.Templates.Version

/-! # Dependencies of features

A feature requires other features. They are walked through when a catalog is checked and
before a feature is installed, and the installation itself goes through them once more.
-/

namespace Openlia.Features.Dependencies

open Lib

/-! ## Manifests -/

/-- `^[a-z0-9][a-z0-9-]*$`. -/
def validID (id : String) : Bool :=
  let isStart := fun c : Char => c.isLower || c.isDigit
  id.toList.head?.any isStart && id.toList.all fun c => isStart c || c = '-'

def ValidateFeatureID (id : String) : Except String Unit :=
  if validID id then .ok ()
  else .error ("invalid feature id \"" ++ id ++ "\": must match ^[a-z0-9][a-z0-9-]*$")

/-- A manifest that was parsed; a skill stands for its path in the package. -/
structure FeatureManifest where
  ID : String
  Version : String
  OpenLia : Templates.Text
  Features : List String
  Skills : List String
  valid : validID ID = true
  requirement : OpenLia = [] ∨ Templates.minimumPattern OpenLia ≠ none

structure InstalledFeatureRecord where
  Manifest : FeatureManifest
  Source : String

abbrev Records := List InstalledFeatureRecord

/-- What an installation writes, in order: the files of a feature, then its record. -/
inductive Write where
  | files (id : String)
  | record (id : String)
  deriving DecidableEq

/-- What the operator reads beside the records. -/
structure Environment where
  /-- The features of the catalog with their directories, in the order of the directories. -/
  catalog : List (FeatureManifest × String)
  /-- The deployed version. -/
  version : Except String Templates.Text
  validateOnly : Bool
  /-- `requires.openlia` of the skill in a directory. -/
  skillRequirement : String → Except String Templates.Text
  /-- The steps of an installation before its record: workspace, skills and tools. -/
  steps : List Write → FeatureManifest → Except String Unit

section Operator

variable (env : Environment) (records : Records)

def installedRecord (id : String) : Option InstalledFeatureRecord :=
  records.find? fun record => record.Manifest.ID = id

structure Resolved where
  manifest : FeatureManifest
  dir : String
  source : String

/-- A later directory of the catalog with the same feature counts. -/
def resolveFeatureManifest (id : String) : Except String Resolved :=
  match env.catalog.reverse.find? fun entry => entry.1.ID = id with
  | some (manifest, dir) => .ok ⟨manifest, dir, "builtin"⟩
  | none =>
      match installedRecord records id with
      | some record => .ok ⟨record.Manifest, "managed/features/" ++ id ++ "/package", record.Source⟩
      | none => .error ("feature not found: " ++ id)

/-! ## The preflight -/

def check (label : String) (requirement : Templates.Text) : Except String Unit :=
  match Templates.Go.validateOpenLiaRequirement String.ofList requirement with
  | .error e => .error (label ++ ": " ++ e)
  | .ok () =>
      if requirement = [] || env.validateOnly then .ok ()
      else
        match env.version with
        | .error e => .error (label ++ " requires OpenLia " ++ String.ofList requirement ++ ": " ++
            e ++ "; deploy a compatible Workspace UI before retrying; no installed workspace" ++
            " files were changed")
        | .ok version =>
            match Templates.Go.runtimeMeetsMinimum String.ofList version requirement with
            | .error e => .error (label ++ ": " ++ e)
            | .ok true => .ok ()
            | .ok false => .error (label ++ " requires OpenLia " ++ String.ofList requirement ++
                "; detected deployed runtime " ++ String.ofList version ++
                "; upgrade the deployment before retrying; no installed workspace files" ++
                " were changed")

def skill (dir : String) : Except String Unit :=
  match env.skillRequirement dir with
  | .error e => .error ("skill " ++ dir ++ ": " ++ e)
  | .ok requirement => check env ("skill " ++ dir) requirement

def skills (pkgDir : String) : List String → Except String Unit
  | [] => .ok ()
  | path :: paths => do
      skill env (pkgDir ++ "/" ++ path)
      skills pkgDir paths

abbrev Visit := List String → List String → String → Except (Failure String) (List String)

/-- The preflight of a feature, with the preflight of the names that it requires. -/
def feature (featureID : Visit) (active done : List String) (manifest : FeatureManifest)
    (pkgDir : String) : Except (Failure String) (List String) :=
  if manifest.ID ∈ active then
    .error (.error ("cyclic feature dependency at " ++ manifest.ID))
  else if manifest.ID ∈ done then .ok done
  else do
    (check env ("feature " ++ manifest.ID ++ " " ++ manifest.Version)
      manifest.OpenLia).mapError .error
    let done ← manifest.Features.foldlM (featureID (manifest.ID :: active)) done
    (skills env pkgDir manifest.Skills).mapError .error
    .ok (manifest.ID :: done)

/-- The first number bounds the recursion. -/
def featureID : Nat → Visit
  | 0, _, _, _ => .error .stack
  | n + 1, active, done, id => do
      (ValidateFeatureID id).mapError .error
      let resolved ← (resolveFeatureManifest env records id).mapError .error
      feature env (featureID n) active done resolved.manifest resolved.dir

end Operator

/-! ## The installation -/

structure State where
  records : Records
  log : List Write

def writeRecord (record : InstalledFeatureRecord) (s : State) : State :=
  ⟨record :: s.records.filter (fun r => r.Manifest.ID ≠ record.Manifest.ID),
    s.log ++ [.record record.Manifest.ID]⟩

abbrev Outcome := State × Except (Failure String) Unit

/-- One after the other, up to the first error. -/
def installAll (install : String → State → Outcome) : List String → State → Outcome
  | [], s => (s, .ok ())
  | id :: ids, s =>
      match install id s with
      | (s', .error .stack) => (s', .error .stack)
      | (s', .error (.error e)) =>
          (s', .error (.error ("install required feature " ++ id ++ ": " ++ e)))
      | (s', .ok ()) => installAll install ids s'

section Install

variable (env : Environment)

/-- The steps of one feature after its dependencies. -/
def installSteps (resolved : Resolved) (s : State) : Outcome :=
  let started : State := { s with log := s.log ++ [.files resolved.manifest.ID] }
  match env.steps s.log resolved.manifest with
  | .error e => (started, .error (.error e))
  | .ok () => (writeRecord ⟨resolved.manifest, resolved.source⟩ started, .ok ())

/-- The first number bounds the recursion. -/
def FeatureInstall : Nat → String → State → Outcome
  | 0, _, s => (s, .error .stack)
  | n + 1, id, s =>
      match ValidateFeatureID id with
      | .error e => (s, .error (.error e))
      | .ok () =>
          match resolveFeatureManifest env s.records id with
          | .error e => (s, .error (.error e))
          | .ok resolved =>
              match feature env (featureID env s.records n) [] [] resolved.manifest
                  resolved.dir with
              | .error e => (s, .error e)
              | .ok _ =>
                  match installAll (FeatureInstall n)
                      (resolved.manifest.Features.filter (· ≠ resolved.manifest.ID)) s with
                  | (s', .error e) => (s', .error e)
                  | (s', .ok ()) => installSteps env resolved s'

end Install

/-! ## The check of a catalog -/

section Catalog

variable (manifests : List FeatureManifest)

/-- The walk of the check; the first number bounds the recursion. -/
def visit : Nat → Visit
  | 0, _, _, _ => .error .stack
  | n + 1, active, done, id =>
      if id ∈ active then .error (.error ("cyclic feature dependency at " ++ id))
      else if id ∈ done then .ok done
      else
        match manifests.find? fun manifest => manifest.ID = id with
        | none => .error (.error ("missing required feature " ++ id))
        | some manifest => do
            let done ← manifest.Features.foldlM (visit n (id :: active)) done
            .ok (id :: done)

/-- The features are visited in some order. -/
def dependencyCheck (n : Nat) (order : List String) : Except (Failure String) Unit := do
  let _ ← order.foldlM (visit manifests n []) []
  .ok ()

end Catalog

end Openlia.Features.Dependencies
