import Openlia.Operator.Migration.Rollback

/-! # ApplyRevision

The function in its two parts. The preparation reconciles an earlier apply,
checks the revision, seeds features, compares the live files and saves the
pre-images; it touches the workspace by seeding only. The execution starts with
the journal and is the part a crash can interrupt with files half changed.
-/

namespace Openlia.Operator

open Lib Crash

variable (env : Env) (migrationID : String)

/-! ## Checks -/

/-- `GetRevision`: by id or number, the highest number first. -/
def Store.getRevision (s : Store) (revID : String) : Option ReviewRevision :=
  (s.revisions.select fun r => decide (r.id = revID ∨ toString r.revisionNum = revID)).foldl
    (fun best r =>
      match best with
      | none => some r
      | some b => if b.revisionNum < r.revisionNum then some r else some b) none

structure ApplyPlan where
  revisionID : String
  revision : ReviewRevision
  changedFiles : List ChangedFileEntry
  deriving DecidableEq, Repr

/-- The checks of `ApplyRevision` between the reconcile and the seeding. -/
def checkRevision (s : Store) (revisionID expectedPatchHash : String) :
    Except String ApplyPlan :=
  match s.migrations.get migrationID with
  | none => .error ("migration " ++ migrationID ++ " not found: %!w(<nil>)")
  | some mig =>
      if mig.state ≠ .readyForReview then
        .error ("migration " ++ migrationID ++ " is in state '" ++ mig.state.text ++ "', not '" ++
          MigrationState.readyForReview.text ++ "'")
      else
        let revisionID := if revisionID = "" then mig.activeRevisionID else revisionID
        match s.getRevision revisionID with
        | none => .error ("revision " ++ revisionID ++ " not found: %!w(<nil>)")
        | some rev =>
            if rev.migrationID ≠ migrationID then
              .error ("revision " ++ revisionID ++ " belongs to migration " ++ rev.migrationID ++
                ", not " ++ migrationID)
            else if rev.commitHash = "" then
              .error ("revision " ++ revisionID ++ " has empty commit hash")
            else
              match env.repo.getTreeHash rev.commitHash with
              | .error e => .error ("verify commit " ++ rev.commitHash ++ " tree: " ++ e)
              | .ok actualTree =>
                  if rev.treeHash ≠ "" ∧ actualTree ≠ rev.treeHash then
                    .error ("tree hash mismatch: expected " ++ rev.treeHash ++ ", got " ++
                      actualTree)
                  else
                    match env.repo.diff mig.baselineManifest rev.commitHash with
                    | .error e => .error ("recompute revision diff: " ++ e)
                    | .ok diff =>
                        let actualPatchHash := computePatchHash env.sha256 diff
                        if rev.patchHash ≠ actualPatchHash then
                          .error ("patch hash mismatch: computed " ++ actualPatchHash ++
                            ", revision has " ++ rev.patchHash)
                        else if expectedPatchHash ≠ "" ∧ rev.patchHash ≠ expectedPatchHash then
                          .error ("expected patch hash mismatch: expected " ++
                            expectedPatchHash ++ ", got " ++ rev.patchHash)
                        else
                          match env.repo.getChangedFiles env.sha256 mig.baselineManifest
                              rev.commitHash with
                          | .error e => .error ("recompute changed files: " ++ e)
                          | .ok changedFiles => .ok ⟨revisionID, rev, changedFiles⟩

/-! ## Seeding -/

/-- One step of a feature's installation: a directory is ensured, a file is
copied where nothing is. -/
def seedStep (t : Tree String Bytes) : SeedStep → Except Errno (Tree String Bytes)
  | .ensureDir p => t.mkdirAll p
  | .copyOnce p data =>
      match t.lstat p with
      | .ok _ => .ok t
      | .error .notExist => t.writeFile p data
      | .error e => .error e

/-- The part of `FeatureInstall` that touches the workspace; the first error ends it. -/
def featureInstall : List SeedStep → Action Unit
  | [] => pure ()
  | step :: rest => do
      let w ← Prog.get
      match seedStep w.live step with
      | .error e => Prog.fail e.text
      | .ok t => do
          Prog.write fun w => w.setLive t
          featureInstall rest

def installFeatures : List String → Action Unit
  | [] => pure ()
  | feature :: rest => do
      Prog.ignore (featureInstall (env.featureSteps feature))
      installFeatures rest

/-- Features whose domains the changed files touch are installed; every error
is dropped. -/
def seedFeatures (changedFiles : List ChangedFileEntry) : Action Unit :=
  if env.repositoryRoot ≠ "" ∧ changedFiles ≠ [] then
    match env.detectFeatures (changedFiles.map ChangedFileEntry.path) with
    | .error _ => pure ()
    | .ok features => installFeatures env features
  else pure ()

/-! ## The stale check -/

/-- The check of one changed file: the state it sets and its message. -/
def staleCheckFile (t : Tree String Bytes) (f : ChangedFileEntry) :
    Except (MigrationState × String) Unit :=
  match validateSafeWorkspacePath t f.path with
  | .error e => .error (.failed, "security violation: " ++ e)
  | .ok () =>
      match f.status with
      | .added =>
          match t.stat f.path with
          | .ok _ => .error (.stale,
              "stale check failed: file already exists in live workspace: " ++ pathText f.path)
          | .error _ => .ok ()
      | .modified =>
          match t.readFile f.path with
          | .error _ => .error (.stale,
              "stale check failed: cannot read existing live file: " ++ pathText f.path)
          | .ok data =>
              if f.oldHash ≠ "" ∧ env.sha256 data ≠ f.oldHash then
                .error (.stale, "stale check failed: live file " ++ pathText f.path ++
                  " changed concurrently (expected hash " ++ f.oldHash ++ ", got " ++
                  env.sha256 data ++ ")")
              else .ok ()
      | .deleted =>
          match t.readFile f.path with
          | .error .notExist => .error (.stale,
              "stale check failed: live file " ++ pathText f.path ++ " already deleted")
          | .error _ => .error (.stale,
              "stale check failed: cannot read live file to be deleted: " ++ pathText f.path)
          | .ok data =>
              if f.oldHash ≠ "" ∧ env.sha256 data ≠ f.oldHash then
                .error (.stale, "stale check failed: live file " ++ pathText f.path ++
                  " changed concurrently before deletion")
              else .ok ()

def staleCheck : List ChangedFileEntry → Action Unit
  | [] => pure ()
  | f :: rest => do
      let w ← Prog.get
      match staleCheckFile env w.live f with
      | .error (state, message) => do
          Prog.ignore (updateMigrationState migrationID state none)
          Prog.fail message
      | .ok () => staleCheck rest

/-! ## Operations and pre-images -/

def savePreImage (i : Nat) (p : Path) (data : Bytes) : Action Unit :=
  match env.fault (.preImage i) with
  | some e => Prog.fail ("write rollback pre-image for " ++ pathText p ++ ": " ++ e)
  | none => Prog.write fun w => { w with preImages := w.preImages.insert p data }

def prepareOperation (i : Nat) (f : ChangedFileEntry) : Action ApplyOperation := do
  let w ← Prog.get
  match f.status, w.live.readFile f.path with
  | .deleted, .error e =>
      Prog.fail ("capture pre-image for delete " ++ pathText f.path ++ ": " ++ e.text)
  | .deleted, .ok data => do
      savePreImage env i f.path data
      pure ⟨.delete, f.path, true, f.oldHash, f.newHash, some f.path, .pending⟩
  | _, .error _ => pure ⟨.write, f.path, false, f.oldHash, f.newHash, none, .pending⟩
  | _, .ok data => do
      savePreImage env i f.path data
      pure ⟨.write, f.path, true, f.oldHash, f.newHash, some f.path, .pending⟩

def prepareOperationsFrom (i : Nat) : List ChangedFileEntry → Action (List ApplyOperation)
  | [] => pure []
  | f :: rest => do
      let op ← prepareOperation env i f
      let ops ← prepareOperationsFrom (i + 1) rest
      pure (op :: ops)

/-- The rollback directory is made afresh. -/
def prepareOperations (changedFiles : List ChangedFileEntry) : Action (List ApplyOperation) := do
  Prog.write fun w => { w with preImages := ∅, applyDir := true }
  prepareOperationsFrom env 0 changedFiles

/-- `ApplyRevision` up to its journal. -/
def prepareApply (revisionID expectedPatchHash : String) :
    Action (ApplyPlan × List ApplyOperation) := do
  match env.lockError with
  | some e => Prog.fail ("acquire workspace mutation lock: " ++ e)
  | none => do
      match ← Prog.attempt (reconcileInterruptedApply env migrationID) with
      | .error e => Prog.fail ("reconcile prior apply: " ++ e)
      | .ok () => do
          let w ← Prog.get
          match checkRevision env migrationID w.store revisionID expectedPatchHash with
          | .error e => Prog.fail e
          | .ok plan => do
              seedFeatures env plan.changedFiles
              staleCheck env migrationID plan.changedFiles
              let operations ← prepareOperations env plan.changedFiles
              pure (plan, operations)

/-! ## Execution -/

/-- One operation of the apply loop. -/
def applyOperation (commitHash : String) (i : Nat) (op : ApplyOperation) : Action Unit := do
  let w ← Prog.get
  match validateSafeWorkspacePath w.live op.path with
  | .error e => Prog.fail ("security check on " ++ pathText op.path ++ ": " ++ e)
  | .ok () =>
      match op.type with
      | .delete =>
          match env.fault (.delete i), w.live.remove op.path with
          | some e, _ => Prog.fail ("delete " ++ pathText op.path ++ ": " ++ e)
          | none, .ok t => Prog.write fun w => w.setLive t
          | none, .error .notExist => pure ()
          | none, .error e => Prog.fail ("delete " ++ pathText op.path ++ ": " ++ e.text)
      | .write =>
          match env.fault (.blob i), env.repo.readFileAtCommit commitHash op.path with
          | some e, _ => Prog.fail ("read blob " ++ pathText op.path ++ " from commit " ++
              commitHash ++ ": " ++ e)
          | none, .error e => Prog.fail ("read blob " ++ pathText op.path ++ " from commit " ++
              commitHash ++ ": " ++ e)
          | none, .ok propData =>
              match env.fault (.mkdir i), w.live.mkdirAll op.path.dropLast with
              | some e, _ => Prog.fail ("mkdir " ++ pathText op.path.dropLast ++ ": " ++ e)
              | none, .error e =>
                  Prog.fail ("mkdir " ++ pathText op.path.dropLast ++ ": " ++ e.text)
              | none, .ok t => do
                  Prog.write fun w => w.setLive t
                  match ← Prog.attempt (atomicWriteFile (env.fault (.write i)) op.path propData) with
                  | .error e => Prog.fail ("write " ++ pathText op.path ++ ": " ++ e)
                  | .ok () => pure ()

/-- The apply loop from operation `i`: how many were applied, and the error
that stopped it. -/
def applyOperations (commitHash : String) (i : Nat) :
    List ApplyOperation → Action (Nat × Option String)
  | [] => pure (0, none)
  | op :: rest => do
      match ← Prog.attempt (applyOperation env commitHash i op) with
      | .error e => pure (0, some e)
      | .ok () => do
          let (n, err) ← applyOperations commitHash (i + 1) rest
          pure (n + 1, err)

def newJournal (plan : ApplyPlan) (operations : List ApplyOperation) : StoredApplyJournal where
  id := "app-" ++ migrationID ++ "-" ++ toString (env.now / second)
  migrationID := migrationID
  revisionID := plan.revisionID
  commitHash := plan.revision.commitHash
  treeHash := plan.revision.treeHash
  patchHash := plan.revision.patchHash
  status := .applying
  operations := operations
  createdAt := env.now
  updatedAt := env.now

/-- The rollback of the operations that were applied before the error. -/
def rollBackApply (journal : StoredApplyJournal) (appliedCount : Nat) (applyErr : String) :
    Action Unit := do
  Prog.ignore (updateMigrationState migrationID .rollingBack none)
  let applied := journal.operations.take appliedCount
  let restored ← restoreOperations env .apply applied
  let journal := { journal with
    operations := markRestored applied restored ++ journal.operations.drop appliedCount
    updatedAt := env.now }
  if restored.all id then do
    recordOutcome migrationID { journal with status := .rolledBack } .readyForReview
    Prog.fail ("apply failed and rolled back cleanly: " ++ applyErr)
  else do
    recordOutcome migrationID { journal with status := .failed } .recoveryRequired
    Prog.fail ("apply failed and rollback incomplete (entered recovery_required): " ++ applyErr)

/-- The journal of an apply that went through. -/
def appliedJournal (journal : StoredApplyJournal) (now : Instant) : StoredApplyJournal :=
  { journal with
    status := .applied
    operations := journal.operations.map fun op => { op with status := .applied }
    updatedAt := now }

/-- The apply loop with the rollback or the final records. -/
def runOperations (journal : StoredApplyJournal) : Action Unit := do
  let (appliedCount, applyErr) ← applyOperations env journal.commitHash 0 journal.operations
  match applyErr with
  | some e => rollBackApply env migrationID journal appliedCount e
  | none => recordOutcome migrationID (appliedJournal journal env.now) .applied

/-- `ApplyRevision` from its journal on. -/
def executeApply (plan : ApplyPlan) (operations : List ApplyOperation) : Action Unit := do
  let journal := newJournal env migrationID plan operations
  match env.fault .journal with
  | some e => Prog.fail ("write apply journal: " ++ e)
  | none => do
      match ← Prog.attempt (writeJournal journal) with
      | .error e => Prog.fail ("write apply journal: " ++ e)
      | .ok () => do
          match ← Prog.attempt (updateMigrationState migrationID .applying none) with
          | .error e => Prog.fail ("update migration state to applying: " ++ e)
          | .ok () => runOperations env migrationID journal

/-- `ApplyRevision`. -/
def applyRevision (revisionID expectedPatchHash : String) : Action Unit := do
  let (plan, operations) ← prepareApply env migrationID revisionID expectedPatchHash
  executeApply env migrationID plan operations

end Openlia.Operator
