import Mathlib.Data.List.Sort
import Openlia.Ingestion.Vault

/-! # The ingestion service

The calls of `server.py` on the vault. The checks of password profiles come before any write,
and the waiting for a job after the last one.
-/

namespace Openlia.Ingestion

open Lib Crash

/-! ## Rows -/

/-- The job of an intake; which of several is of no concern. -/
def getByIntake (t : JobTable) (intakeId : String) : Option Job :=
  t.rows.find? fun j => j.intakeId = intakeId

def getSourceFtsContent (v : Vault) (sourceId : String) : String :=
  ((v.fts.find? fun r => r.sourceId = sourceId).map fun r => r.content).getD ""

/-- `list_intakes`, the latest first. -/
def listIntakes (v : Vault) : List Intake :=
  (v.intakes.rows.map fun row => row.record).insertionSort fun a b => b.capturedAt ≤ a.capturedAt

def submitJob (request : SubmitRequest) (jobId : String) (now : Timestamp) : VaultAction Job := do
  let v ← Prog.get
  match submit v.jobs request jobId now with
  | .error e => Prog.fail e
  | .ok (job, jobs) => do
      Prog.write fun v => { v with jobs }
      pure job

def updateSource (source : Source) : VaultAction Unit :=
  if safeId source.id then Prog.write (saveSource source) else Prog.fail "invalid source id"

def updateIntake (intake : Intake) : VaultAction Unit :=
  if safeId intake.intakeId then Prog.write (saveIntake intake) else Prog.fail "invalid intake id"

/-! ## Capture -/

/-- One call, with the key that `_idempotency_key` gives to its request. -/
structure EnqueueCall where
  request : CaptureRequest
  idempotencyKey : String
  fresh : Fresh
  jobId : String
  now : Timestamp

/-- The answer. -/
structure Enqueued where
  jobId : String
  intakeId : String
  sourceId : String
  versionId : Option String
  state : JobState
  duplicate : Bool
  deriving DecidableEq

def submission (idempotencyKey : String) (intake : Intake) (passwordProfile : Option String) :
    SubmitRequest where
  idempotencyKey := idempotencyKey
  intakeId := intake.intakeId
  sourceId := intake.sourceId
  versionId := some intake.versionId
  operation := orDefault (some intake.operation) "extract"
  requestedOutputs :=
    if intake.requestedOutputs = [] then ["text"] else intake.requestedOutputs
  passwordProfile := passwordProfile
  continuation := intake.continuation

def duplicateOf (existing : Job) : Enqueued where
  jobId := existing.jobId
  intakeId := existing.intakeId
  sourceId := existing.sourceId
  versionId := existing.versionId
  state := existing.state
  duplicate := true

/-- The request of the job of a capture. -/
def captureSubmission (call : EnqueueCall) (captured : Captured) : SubmitRequest :=
  submission call.idempotencyKey captured.intake call.request.passwordProfile

def queuedIntake (captured : Captured) (job : Job) : Intake :=
  { captured.intake with jobId := some job.jobId, status := "queued" }

def queuedSource (captured : Captured) (job : Job) : Source :=
  { captured.source with
    processing := { captured.source.processing with
      status := "queued", lastJobId := some job.jobId } }

def enqueuedAs (captured : Captured) (job : Job) : Enqueued where
  jobId := job.jobId
  intakeId := captured.intake.intakeId
  sourceId := captured.source.id
  versionId := some captured.intake.versionId
  state := job.state
  duplicate := false

/-- The search row of a source keeps its content. -/
def reindexSource (source : Source) (processingStatus : String) : VaultAction Unit := do
  let v ← Prog.get
  upsertSourceFts source (getSourceFtsContent v source.id) processingStatus

/-- The job of a capture, and the records that refer to it. -/
def enqueueCaptured (call : EnqueueCall) (captured : Captured) : VaultAction Enqueued := do
  let job ← submitJob (captureSubmission call captured) call.jobId call.now
  updateIntake (queuedIntake captured job)
  updateSource (queuedSource captured job)
  reindexSource (queuedSource captured job) "queued"
  pure (enqueuedAs captured job)

def captureAndEnqueue (py : Python) (call : EnqueueCall) : VaultAction Enqueued := do
  let v ← Prog.get
  match getByIdempotency v.jobs call.idempotencyKey with
  | some existing => pure (duplicateOf existing)
  | none => do
      let captured ← capture py call.request call.fresh
      enqueueCaptured call captured

/-! ## Recovery -/

/-- The states of an intake that may have lost its job. -/
def recoverable (status : String) : Bool :=
  status = "captured" || status = "queued" || status = "processing" || status = "partial"

/-- The intakes that get a job; `newId` gives the id of a job. -/
def recoverIntakes (now : Timestamp) (newId : String → String) :
    List Intake → VaultAction (List String)
  | [] => pure []
  | intake :: rest =>
      if recoverable intake.status then do
        let v ← Prog.get
        match getByIntake v.jobs intake.intakeId with
        | some _ => recoverIntakes now newId rest
        | none => do
            let job ← submitJob (submission ("recovery:" ++ intake.intakeId) intake none)
              (newId intake.intakeId) now
            updateIntake { intake with jobId := some job.jobId, status := "queued" }
            let requeued ← recoverIntakes now newId rest
            pure (intake.intakeId :: requeued)
      else recoverIntakes now newId rest

def recoverVault (now : Timestamp) (newId : String → String) : VaultAction (List String) := do
  Prog.write fun v => { v with jobs := reclaimLocked v.jobs now }
  let v ← Prog.get
  recoverIntakes now newId (listIntakes v)

/-! ## Cancellation and deletion -/

def Source.cancelled (source : Source) (reason : String) : Source :=
  { source with
    status := "cancelled"
    processing := { source.processing with
      status := "cancelled"
      errorCode := some reason
      errorSummary := some "Processing was cancelled by user" } }

def IntakeRow.cancelled (row : IntakeRow) (reason : String) : IntakeRow :=
  { row with record := { row.record with status := "cancelled", lastError := some reason } }

@[simp] theorem IntakeRow.cancelled_intakeId (row : IntakeRow) (reason : String) :
    (row.cancelled reason).record.intakeId = row.record.intakeId := rfl

/-- The transaction of `cancel_processing`; none when the source is not there. -/
def cancelProcessing (sourceId reason : String) (now : Timestamp) (v : Vault) : Option Vault :=
  (v.sources.get sourceId).map fun source =>
    { v with
      jobs := cancelJobs v.jobs sourceId reason now
      sources := v.sources.upsert (source.cancelled reason)
      intakes := v.intakes.update (fun row => row.sourceId = sourceId)
        (fun row => row.cancelled reason) fun row => row.cancelled_intakeId reason
      fts := v.fts.map fun r =>
        if r.sourceId = sourceId then { r with processingStatus := "cancelled" } else r }

def deleteSourceCascade (sourceId : String) (v : Vault) : Vault :=
  { v with
    jobs := deleteSourceJobs v.jobs sourceId
    fts := v.fts.filter fun r => r.sourceId ≠ sourceId
    intakes := v.intakes.delete fun row => row.sourceId = sourceId
    sources := v.sources.delete fun s => s.id = sourceId }

def deleteSource (sourceId : String) : VaultAction Unit :=
  if safeId sourceId then do
    Prog.write (deleteSourceCascade sourceId)
    let v ← Prog.get
    removeBlobs ((v.blobs.rows.map Blob.key).filter fun key => key.sourceId = sourceId)
  else Prog.fail "invalid source id"

end Openlia.Ingestion
