import Openlia.Lib.Runs
import Openlia.Lib.WorkTree
import Openlia.Operator.Migration.JobRuns

/-! # The supervisor and the proposal repository

One process at a time holds the worker lock. It sweeps expired jobs, then claims job
after job: the runner edits the working tree, and the supervisor commits what it finds
there or resets the tree to the commit before the job. Every statement and every git
command is a step of its own, and the process may die between any two.
-/

namespace Openlia.Operator

open Lib

/-- What a commit's message names. The generation is the lease under which the commit
was made; the message names the job only. -/
inductive CommitLabel where
  | baseline
  | job (id : String) (leaseGen : Nat)
  | revision (number : Nat)
  deriving DecidableEq

abbrev WorkRepo := Repo String Bytes CommitLabel
abbrev WorkHistory := History String Bytes CommitLabel
abbrev WorkFiles := Files String Bytes

structure RequestResult where
  changedPaths : List String
  rationale : String
  questions : List String
  findings : List ValidationFinding

/-- The summary, code and message of a failed attempt. -/
structure AttemptFailure where
  summary : String
  errCode : String
  errMsg : String

inductive Task where
  | job (j : Job)
  | revision (number : Nat)

def Task.checkpoint : Task → CommitLabel
  | .job j => .job j.id j.leaseGeneration
  | .revision n => .revision n

/-- Where the process that holds the worker lock is. `before` is the working tree that
the runner found. -/
inductive Phase where
  | sweeping (readAt : Instant) (expired : List ExpiredJob)
  | idle
  | claimed (task : Task) (headBefore : WorkHistory)
  | running (task : Task) (headBefore : WorkHistory) (before : WorkFiles)
  | returned (task : Task) (headBefore : WorkHistory)
      (res : Except AttemptFailure RequestResult)
  | staged (task : Task) (headBefore : WorkHistory) (res : RequestResult)
  | committed (task : Task) (headBefore : WorkHistory) (res : RequestResult)
  | reset (task : Task) (failure : AttemptFailure)
  | cleaned (task : Task) (failure : AttemptFailure)
  | failing (j : Job) (failure : AttemptFailure) (attempts maxAttempts : Nat)

structure Worker where
  workerID : String
  phase : Phase

/-- What a runner did for a job: the working tree it found and the one it left. -/
structure Attempt where
  jobID : String
  leaseGen : Nat
  before : WorkFiles
  after : WorkFiles
  succeeded : Bool

structure Supervision where
  jobs : JobTable
  repo : WorkRepo
  worker : Option Worker
  /-- The attempts whose runner returned. -/
  attempts : List Attempt

inductive Move where
  /-- Another process enqueues jobs or resets the failed ones. -/
  | enqueue (now : Instant) (jobs : List NewJob)
  | resetFailed (now : Instant)
  /-- A process takes the lock and reads the expired jobs. -/
  | start (workerID : String) (now : Instant)
  | sweepRow
  | sweepRowFails
  | enterLoop
  | beginRevision (number : Nat)
  /-- The loop ends: stop intent, a cancelled context or a failing read. -/
  | leave
  | claim (now : Instant) (pick : Nat)
  | sourceMissing (now : Instant)
  | sourcesFail
  | heartbeat (now : Instant)
  | runnerStarts
  | runnerWrites (files : WorkFiles)
  | runnerReturns (res : Except String RequestResult)
  | stage
  | checkpointFails (message : String)
  | commit
  | complete (now : Instant)
  | completeFails
  | resetTree
  | cleanTree
  | failRead
  | failReadFails
  | failWrite (now : Instant)
  | failWriteFails
  | crash

namespace Supervision

section Steps

variable (migrationID : String) (leaseTime : Nat) (ignored : WorkFiles → String → Bool)

def setPhase (s : Supervision) (workerID : String) (phase : Phase) : Supervision :=
  { s with worker := some ⟨workerID, phase⟩ }

/-- The attempt that ends when the runner returns. -/
def endedAttempt (task : Task) (before after : WorkFiles) (succeeded : Bool) : List Attempt :=
  match task with
  | .job j => [⟨j.id, j.leaseGeneration, before, after, succeeded⟩]
  | .revision _ => []

/-- The paths and the state that `CompleteJob` is given. -/
def completion (headBefore head : WorkHistory) (res : RequestResult) : JobState × JobReport :=
  let actualPaths := Files.changed headBefore.headTree head.headTree
  let changedPaths := if actualPaths = [] then res.changedPaths else actualPaths
  (if changedPaths = [] then .noChange else .succeeded,
    ⟨res.rationale, changedPaths, res.findings, res.questions, "", ""⟩)

/-- The steps of `RunUntilIdle` and `processJob` in the process that holds the lock. -/
def workerNext (s : Supervision) (workerID : String) : Move → Phase → Option Supervision
  | .sweepRow, .sweeping readAt (e :: rest) =>
      some { s with
        jobs := sweepWrite s.jobs e readAt
        worker := some ⟨workerID, .sweeping readAt rest⟩ }
  | .sweepRowFails, .sweeping readAt (_ :: rest) =>
      some (s.setPhase workerID (.sweeping readAt rest))
  | .enterLoop, .sweeping _ [] => some (s.setPhase workerID .idle)
  | .beginRevision n, .sweeping _ [] =>
      some (s.setPhase workerID (.claimed (.revision n) s.repo.history))
  | .leave, .sweeping _ [] => some { s with worker := none }
  | .leave, .idle => some { s with worker := none }
  | .claim now pick, .idle =>
      match claimNextJob s.jobs migrationID workerID leaseTime now pick with
      | none => some { s with worker := none }
      | some (j, t) =>
          some { s with
            jobs := t
            worker := some ⟨workerID, .claimed (.job j) s.repo.history⟩ }
  | .sourceMissing now, .claimed (.job j) _ =>
      some { s with
        jobs := JobSystem.orUnchanged s.jobs (completeJob s.jobs j.id workerID
          j.leaseGeneration .failed ⟨"Source entry missing", [], [], [],
            "missing_source", ""⟩ now)
        worker := some ⟨workerID, .idle⟩ }
  | .completeFails, .claimed (.job _) _ => some (s.setPhase workerID .idle)
  | .sourcesFail, .claimed (.job _) _ => some { s with worker := none }
  | .heartbeat now, .claimed (.job j) head =>
      some { s with
        jobs := JobSystem.orUnchanged s.jobs
          (heartbeatJob s.jobs j.id workerID j.leaseGeneration leaseTime now)
        worker := some ⟨workerID, .claimed (.job j) head⟩ }
  | .heartbeat now, .running (.job j) head before =>
      some { s with
        jobs := JobSystem.orUnchanged s.jobs
          (heartbeatJob s.jobs j.id workerID j.leaseGeneration leaseTime now)
        worker := some ⟨workerID, .running (.job j) head before⟩ }
  | .runnerStarts, .claimed task head =>
      some (s.setPhase workerID (.running task head s.repo.work))
  | .runnerWrites files, .running task head before =>
      some { s with
        repo := { s.repo with work := files }
        worker := some ⟨workerID, .running task head before⟩ }
  | .runnerReturns (.ok res), .running task head before =>
      some { s with
        attempts := s.attempts ++ endedAttempt task before s.repo.work true
        worker := some ⟨workerID, .returned task head (.ok res)⟩ }
  | .runnerReturns (.error message), .running task head before =>
      some { s with
        attempts := s.attempts ++ endedAttempt task before s.repo.work false
        worker := some ⟨workerID, .returned task head
          (.error ⟨"Runner error", "runner_error", message⟩)⟩ }
  | .stage, .returned task head (.ok res) =>
      some { s with
        repo := s.repo.addAll ignored
        worker := some ⟨workerID, .staged task head res⟩ }
  | .checkpointFails message, .returned task head (.ok _)
  | .checkpointFails message, .staged task head _ =>
      some (s.setPhase workerID (.returned task head
        (.error ⟨"CommitLabel error", "checkpoint_error", message⟩)))
  | .commit, .staged task head res =>
      some { s with
        repo :=
          if s.repo.statusEmpty ignored then s.repo else s.repo.commit task.checkpoint
        worker := some ⟨workerID, .committed task head res⟩ }
  | .complete now, .committed (.job j) head res =>
      let done := completion head s.repo.history res
      some { s with
        jobs := JobSystem.orUnchanged s.jobs
          (completeJob s.jobs j.id workerID j.leaseGeneration done.1 done.2 now)
        worker := some ⟨workerID, .idle⟩ }
  -- the revision is recorded, and the run ends
  | .complete _, .committed (.revision _) _ _ => some { s with worker := none }
  | .completeFails, .committed (.job _) _ _ => some (s.setPhase workerID .idle)
  | .resetTree, .returned task head (.error e) =>
      some { s with
        repo := s.repo.resetHard head
        worker := some ⟨workerID, .reset task e⟩ }
  | .cleanTree, .reset task e =>
      some { s with
        repo := s.repo.clean ignored
        worker := some ⟨workerID, .cleaned task e⟩ }
  | .failRead, .cleaned (.job j) e =>
      match failOrRetryRead s.jobs j.id with
      | .error _ => some (s.setPhase workerID .idle)
      | .ok (attempts, maxAttempts) =>
          some (s.setPhase workerID (.failing j e attempts maxAttempts))
  | .failReadFails, .cleaned (.job _) _ => some (s.setPhase workerID .idle)
  | .leave, .cleaned (.revision _) _ => some { s with worker := none }
  | .failWrite now, .failing j e attempts maxAttempts =>
      some { s with
        jobs := JobSystem.orUnchanged s.jobs ((failOrRetryWrite s.jobs attempts maxAttempts
          j.id workerID j.leaseGeneration e.summary e.errCode e.errMsg now).map Prod.snd)
        worker := some ⟨workerID, .idle⟩ }
  | .failWriteFails, .failing _ _ _ _ => some (s.setPhase workerID .idle)
  | _, _ => none

/-- A step of the process that holds the lock, or of the processes around it. -/
def next (s : Supervision) : Move → Option Supervision
  | .enqueue now new => (enqueueJobs s.jobs now new).map fun t => { s with jobs := t }
  | .resetFailed now => some { s with jobs := resetFailedJobs s.jobs migrationID now }
  | .start workerID now =>
      match s.worker with
      | some _ => none
      | none =>
          if workerID = "" then none
          else some (s.setPhase workerID (.sweeping now (sweepRead s.jobs migrationID now)))
  | .crash => some { s with worker := none }
  | m =>
      match s.worker with
      | none => none
      | some w => workerNext migrationID leaseTime ignored s w.workerID m w.phase

/-- `CaptureBaseline`: the copied files are added and committed. -/
def captureBaseline (live : WorkFiles) : WorkRepo :=
  ((⟨[], [], live⟩ : WorkRepo).addAll ignored).commit .baseline

/-- The repository holds the baseline, and there are no jobs yet. -/
def fresh (live : WorkFiles) : Supervision :=
  ⟨Table.empty, captureBaseline ignored live, none, []⟩

end Steps

end Supervision

end Openlia.Operator
