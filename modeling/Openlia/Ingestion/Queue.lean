import Mathlib.Algebra.Group.Nat.Defs
import Mathlib.Algebra.Order.Ring.Unbundled.Rat
import Openlia.Lib.Table

/-! # The ingestion queue

One definition per function of `db.py` that touches `jobs`, each the transaction or the
statement it runs. Times are seconds.
-/

namespace Openlia.Ingestion

open Lib

abbrev Timestamp := ℚ

def leaseSeconds : Timestamp := 90

def maxAttempts : Nat := 4

inductive JobState where
  | queued
  | running
  | completed
  /-- The state `partial`. -/
  | partialResult
  | retryableFailure
  | failed
  | awaitingUnlock
  | waitingForPassword
  | cancelled
  deriving DecidableEq

/-- A row of `jobs`. -/
structure Job where
  jobId : String
  idempotencyKey : String
  intakeId : String
  sourceId : String
  versionId : Option String
  operation : String
  requestedOutputs : List String
  passwordProfile : Option String
  continuation : String
  state : JobState
  attempts : Nat
  leaseOwner : Option String
  leaseGeneration : Nat
  leaseExpiresAt : Option Timestamp
  heartbeatAt : Option Timestamp
  nextAttemptAt : Option Timestamp
  errorCode : Option String
  errorSummary : Option String
  result : Option String
  createdAt : Timestamp
  updatedAt : Timestamp
  deriving DecidableEq

/-- The table `jobs`, keyed by `job_id TEXT PRIMARY KEY`. -/
abbrev JobTable := Table Job String Job.jobId

/-! ## Submission -/

structure SubmitRequest where
  idempotencyKey : String
  intakeId : String
  sourceId : String
  versionId : Option String
  operation : String
  requestedOutputs : List String
  passwordProfile : Option String
  continuation : String
  deriving DecidableEq

def SubmitRequest.row (request : SubmitRequest) (jobId : String) (now : Timestamp) : Job where
  jobId := jobId
  idempotencyKey := request.idempotencyKey
  intakeId := request.intakeId
  sourceId := request.sourceId
  versionId := request.versionId
  operation := request.operation
  requestedOutputs := request.requestedOutputs
  passwordProfile := request.passwordProfile
  continuation := request.continuation
  state := .queued
  attempts := 0
  leaseOwner := none
  leaseGeneration := 0
  leaseExpiresAt := none
  heartbeatAt := none
  nextAttemptAt := some now
  errorCode := none
  errorSummary := none
  result := none
  createdAt := now
  updatedAt := now

def getByIdempotency (t : JobTable) (idempotencyKey : String) : Option Job :=
  t.rows.find? fun j => j.idempotencyKey = idempotencyKey

/-- The job of the key, which is a new one when there is none. -/
def submit (t : JobTable) (request : SubmitRequest) (jobId : String) (now : Timestamp) :
    Except String (Job × JobTable) :=
  match getByIdempotency t request.idempotencyKey with
  | some existing => .ok (existing, t)
  | none =>
      match t.insert (request.row jobId now) with
      | none => .error "UNIQUE constraint failed: jobs.job_id"
      | some t' => .ok (request.row jobId now, t')

/-! ## Leases -/

/-- `state='running' AND lease_expires_at < now`; a NULL is below nothing. -/
def Job.expired (j : Job) (now : Timestamp) : Bool :=
  j.state = .running && j.leaseExpiresAt.any fun expiry => expiry < now

def Job.reclaimed (j : Job) (now : Timestamp) : Job :=
  { j with
    state := .queued
    leaseOwner := none
    leaseExpiresAt := none
    nextAttemptAt := some now
    errorCode := some "worker_lost"
    errorSummary := some "worker lease expired"
    updatedAt := now }

@[simp] theorem Job.reclaimed_jobId (j : Job) (now : Timestamp) :
    (j.reclaimed now).jobId = j.jobId := rfl

def reclaimLocked (t : JobTable) (now : Timestamp) : JobTable :=
  t.update (fun j => j.expired now) (fun j => j.reclaimed now)
    fun j => j.reclaimed_jobId now

/-- `state IN ('queued', 'retryable-failure')` -/
def Job.waiting (j : Job) : Bool := j.state = .queued || j.state = .retryableFailure

def Job.due (j : Job) (now : Timestamp) : Bool :=
  j.waiting && j.nextAttemptAt.all fun next => next ≤ now

/-- The rows that `ORDER BY created_at LIMIT 1` may return. -/
def dueJobs (t : JobTable) (now : Timestamp) : List Job :=
  let due := t.select fun j => j.due now
  due.filter fun j => due.all fun k => j.createdAt ≤ k.createdAt

def Job.claimedBy (j : Job) (owner : String) (generation : Nat) (now : Timestamp) : Job :=
  { j with
    state := .running
    attempts := j.attempts + 1
    leaseOwner := some owner
    leaseGeneration := generation
    leaseExpiresAt := some (now + leaseSeconds)
    heartbeatAt := some now
    updatedAt := now }

@[simp] theorem Job.claimedBy_jobId (j : Job) (owner : String) (generation : Nat)
    (now : Timestamp) :
    (j.claimedBy owner generation now).jobId = j.jobId := rfl

/-- The job that was claimed, and the table; `pick` is the row that the query returned. -/
def claim (t : JobTable) (owner : String) (now : Timestamp) (pick : Nat) :
    Option Job × JobTable :=
  let t := reclaimLocked t now
  let rows := dueJobs t now
  match rows[pick % rows.length]? with
  | none => (none, t)
  | some j =>
      let generation := j.leaseGeneration + 1
      (some (j.claimedBy owner generation now),
        t.update (fun r => r.jobId = j.jobId && r.waiting)
          (fun r => r.claimedBy owner generation now)
          fun r => r.claimedBy_jobId owner generation now)

/-- `job_id=? AND state='running' AND lease_owner=? AND lease_generation=?`; a comparison with
NULL is never true. -/
def Job.heldBy (j : Job) (jobId : String) (owner : Option String) (generation : Nat) : Bool :=
  j.jobId = jobId && j.state = .running && owner.isSome && j.leaseOwner = owner &&
    j.leaseGeneration = generation

def Job.extended (j : Job) (now : Timestamp) : Job :=
  { j with
    leaseExpiresAt := some (now + leaseSeconds)
    heartbeatAt := some now
    updatedAt := now }

@[simp] theorem Job.extended_jobId (j : Job) (now : Timestamp) :
    (j.extended now).jobId = j.jobId := rfl

def heartbeat (t : JobTable) (jobId owner : String) (generation : Nat) (now : Timestamp) :
    Bool × JobTable :=
  (t.affected (fun j => j.heldBy jobId (some owner) generation) = 1,
    t.update (fun j => j.heldBy jobId (some owner) generation) (fun j => j.extended now)
      fun j => j.extended_jobId now)

/-- The job as the worker read it holds its lease. -/
def Job.fences (job j : Job) : Bool := j.heldBy job.jobId job.leaseOwner job.leaseGeneration

def Job.finished (j : Job) (completed : Bool) (result : String) (now : Timestamp) : Job :=
  { j with
    state := if completed then .completed else .partialResult
    result := some result
    leaseOwner := none
    leaseExpiresAt := none
    updatedAt := now }

@[simp] theorem Job.finished_jobId (j : Job) (completed : Bool) (result : String)
    (now : Timestamp) :
    (j.finished completed result now).jobId = j.jobId := rfl

/-- `completed` says whether the result has that status. -/
def finish (t : JobTable) (job : Job) (completed : Bool) (result : String) (now : Timestamp) :
    Option String × JobTable :=
  if t.affected job.fences = 0 then (none, t)
  else
    (some job.jobId,
      t.update (fun j => j.jobId = job.jobId) (fun j => j.finished completed result now)
        fun j => j.finished_jobId completed result now)

def firstChars (n : Nat) (s : String) : String := String.ofList (s.toList.take n)

/-- The job is retried later, or it has failed; `job` is the job as the worker read it. -/
def Job.failedAs (j job : Job) (code summary : String) (retryable : Bool) (now : Timestamp) :
    Job :=
  let shouldRetry := retryable && job.attempts < maxAttempts
  let delay : Nat := min 300 (2 ^ (job.attempts - 1))
  { j with
    state := if shouldRetry then .retryableFailure else .failed
    errorCode := some code
    errorSummary := some (firstChars 500 summary)
    nextAttemptAt := if shouldRetry then some (now + delay) else none
    leaseOwner := none
    leaseExpiresAt := none
    updatedAt := now }

@[simp] theorem Job.failedAs_jobId (j : Job) (job : Job) (code summary : String) (retryable : Bool)
    (now : Timestamp) :
    (j.failedAs job code summary retryable now).jobId = j.jobId := rfl

def fail (t : JobTable) (job : Job) (code summary : String) (retryable : Bool) (now : Timestamp) :
    Bool × JobTable :=
  (t.affected job.fences = 1,
    t.update job.fences (fun j => j.failedAs job code summary retryable now)
      fun j => j.failedAs_jobId job code summary retryable now)

def Job.blocked (j : Job) (code summary : String) (now : Timestamp) : Job :=
  { j with
    state := .awaitingUnlock
    errorCode := some code
    errorSummary := some (firstChars 500 summary)
    leaseOwner := none
    leaseExpiresAt := none
    updatedAt := now }

@[simp] theorem Job.blocked_jobId (j : Job) (code summary : String) (now : Timestamp) :
    (j.blocked code summary now).jobId = j.jobId := rfl

def blockForPassword (t : JobTable) (job : Job) (code summary : String) (now : Timestamp) :
    Bool × JobTable :=
  (t.affected job.fences = 1,
    t.update job.fences (fun j => j.blocked code summary now)
      fun j => j.blocked_jobId code summary now)

/-! ## Requeue and cancellation -/

/-- The states that an explicit requeue starts from. -/
def Job.requeueable (j : Job) : Bool :=
  [JobState.failed, .partialResult, .awaitingUnlock, .waitingForPassword, .retryableFailure,
    .completed, .cancelled].contains j.state

def Job.requeued (j : Job) (passwordProfile : Option String) (now : Timestamp) : Job :=
  { j with
    state := .queued
    passwordProfile := passwordProfile.or j.passwordProfile
    errorCode := none
    errorSummary := none
    nextAttemptAt := some now
    updatedAt := now }

@[simp] theorem Job.requeued_jobId (j : Job) (passwordProfile : Option String) (now : Timestamp) :
    (j.requeued passwordProfile now).jobId = j.jobId := rfl

def requeueJob (t : JobTable) (jobId : String) (passwordProfile : Option String)
    (now : Timestamp) : JobTable :=
  t.update (fun j => j.jobId = jobId && j.requeueable) (fun j => j.requeued passwordProfile now)
    fun j => j.requeued_jobId passwordProfile now

/-- The states of a job that can be cancelled. -/
def Job.active (j : Job) : Bool :=
  [JobState.queued, .running, .retryableFailure, .awaitingUnlock].contains j.state

/-- The jobs of superseded versions of a source are deleted. -/
def cancelSourceJobs (t : JobTable) (sourceId : String) (excludeVersionId : Option String) :
    JobTable :=
  t.delete fun j => j.sourceId = sourceId && j.active &&
    match excludeVersionId.filter (· ≠ "") with
    | none => true
    | some excluded => j.versionId ≠ some excluded

def deleteSourceJobs (t : JobTable) (sourceId : String) : JobTable :=
  t.delete fun j => j.sourceId = sourceId

def deleteVersionJobs (t : JobTable) (sourceId versionId : String) : JobTable :=
  t.delete fun j => j.sourceId = sourceId && j.versionId = some versionId

def Job.cancelledFor (j : Job) (reason : String) (now : Timestamp) : Job :=
  { j with
    state := .cancelled
    errorCode := some reason
    errorSummary := some "Processing was cancelled by user"
    updatedAt := now }

@[simp] theorem Job.cancelledFor_jobId (j : Job) (reason : String) (now : Timestamp) :
    (j.cancelledFor reason now).jobId = j.jobId := rfl

/-- What `cancel_processing` does to the jobs of a source that exists. -/
def cancelJobs (t : JobTable) (sourceId reason : String) (now : Timestamp) : JobTable :=
  t.update (fun j => j.sourceId = sourceId && j.active) (fun j => j.cancelledFor reason now)
    fun j => j.cancelledFor_jobId reason now

end Openlia.Ingestion
