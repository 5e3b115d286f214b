import Mathlib.Data.List.Sort
import Openlia.Operator.Migration.World

/-! # Workers, revisions and the lifecycle calls

`runner/worker.go`, the functions of `migration_lifecycle.go` and the commands
that write the database themselves. What the runner, Git and the clock do is
given to a call; a call whose worker goes to the background is the part before.
-/

namespace Openlia.Operator

open Lib Crash

/-! ## Statements -/

def Store.setJobs (s : Store) (t : JobTable) : Store := { s with jobs := t }

@[simp] theorem Store.setJobs_jobs (s : Store) (t : JobTable) : (s.setJobs t).jobs = t := rfl

@[simp] theorem Store.setJobs_migrations (s : Store) (t : JobTable) :
    (s.setJobs t).migrations = s.migrations := rfl

/-- An update of `jobs` that may be rejected. -/
def jobStatement (f : JobTable → Except String JobTable) : Action Unit := do
  let w ← Prog.get
  match f w.store.jobs with
  | .error e => Prog.fail e
  | .ok t => Prog.write fun w => w.setStore (w.store.setJobs t)

/-- A statement that is never rejected is one write. -/
@[simp] theorem run_jobStatement_ok_bind {α : Type} (f : JobTable → JobTable)
    (k : Unit → Action α) (w : World) :
    ((jobStatement fun t => .ok (f t)) >>= k).run w =
      (Prog.write (fun w => w.setStore (w.store.setJobs (f w.store.jobs))) >>= k).run w := rfl

/-- `db.SweepExpiredJobs` after its read. -/
def sweepRows (now : Instant) : List ExpiredJob → Action Unit
  | [] => pure ()
  | e :: rest => do
      Prog.write fun w => w.setStore (w.store.setJobs (sweepWrite w.store.jobs e now))
      sweepRows now rest

/-- `db.SweepExpiredJobs`. -/
def sweepExpiredJobs (migrationID : String) (now : Instant) : Action Unit := do
  let w ← Prog.get
  sweepRows now (sweepRead w.store.jobs migrationID now)

/-- `db.FailOrRetryJob`. -/
def failOrRetryJob (jobID workerID : String) (leaseGen : Nat) (summary errCode errMsg : String)
    (now : Instant) : Action Unit := do
  let w ← Prog.get
  match failOrRetryRead w.store.jobs jobID with
  | .error e => Prog.fail e
  | .ok (attempts, maxAttempts) =>
      jobStatement fun t => (failOrRetryWrite t attempts maxAttempts jobID workerID leaseGen
        summary errCode errMsg now).map Prod.snd

namespace Store

variable (s : Store) (migrationID : String)

def listSources : List SourceEntry :=
  s.sources.filter fun e => decide (e.migrationID = migrationID)

/-- `ListRevisions`, by number. -/
def listRevisions : List ReviewRevision :=
  (s.revisions.select fun r => decide (r.migrationID = migrationID)).insertionSort
    fun a b => a.revisionNum ≤ b.revisionNum

/-- The submitted ones of `ListFeedback`. -/
def submittedFeedback : List FeedbackItem :=
  s.feedback.select fun f => decide (f.migrationID = migrationID ∧ f.status = .submitted)

/-- `CreateRevision`: one transaction. -/
def createRevision (rev : ReviewRevision) : Except String Store :=
  match s.revisions.insert rev with
  | none => .error "UNIQUE constraint failed: revisions.id"
  | some t => .ok ({ s with revisions := t }.mapMigration rev.migrationID
      (fun m => { m with activeRevisionID := rev.id }) fun _ => rfl)

/-- `AddFeedback`. -/
def addFeedback (item : FeedbackItem) : Except String Store :=
  match s.feedback.insert item with
  | none => .error "UNIQUE constraint failed: feedback.id"
  | some t => .ok { s with feedback := t }

/-- `MarkFeedbackAddressedByIDs`. -/
def markFeedbackAddressed (ids : List String) : Store :=
  { s with
    feedback := s.feedback.update
      (fun f => decide (f.id ∈ ids ∧ f.status = .submitted))
      (fun f => { f with status := .addressed }) fun _ => rfl }

/-- `GetJobSummary`, one state of it. -/
def countJobs (state : JobState) : Nat :=
  s.jobs.affected fun j => decide (j.migrationID = migrationID ∧ j.state = state)

end Store

/-- A statement on the store that may be rejected. -/
def storeStatement (f : Store → Except String Store) : Action Unit := do
  let w ← Prog.get
  match f w.store with
  | .error e => Prog.fail e
  | .ok s => Prog.write fun w => w.setStore s

/-! ## The supervisor -/

/-- The end of one job's run. -/
inductive JobOutcome where
  | runnerError (message : String)
  | checkpointError (message : String)
  | finished (rationale : String) (changedPaths : List String)
      (findings : List ValidationFinding) (questions : List String)
  deriving DecidableEq, Repr

/-- What one turn of the worker's loop meets. -/
structure Turn where
  claimAt : Instant
  pick : Nat
  heartbeats : List Instant
  outcome : JobOutcome
  endAt : Instant
  deriving DecidableEq, Repr

/-- A commit of the proposal repository, as Git describes it. -/
structure Checkpoint where
  commitHash : String
  treeHash : String
  patchHash : String
  deriving DecidableEq, Repr

/-- What a supervisor meets. After the last turn its context is cancelled. -/
structure WorkerEnv where
  repoError : Option String
  lockError : Option String
  now : Instant
  turns : List Turn
  publish : Except String Checkpoint
  revision : Except String Checkpoint
  deriving Repr

variable (we : WorkerEnv) (migrationID : String)

def WorkerEnv.workerID : String := "worker-" ++ toString (we.now / second)

/-- `LeaseTime`. -/
def leaseTime : Nat := 60 * second

/-- A worker must not go on. -/
def Migration.halted (m : Migration) : Bool :=
  m.stopIntent || decide (m.state = .stopping) || decide (m.state = .stopped)

/-- The heartbeats of one job; the first that is rejected is the last. -/
def heartbeats (jobID workerID : String) (leaseGen : Nat) : List Instant → Action Unit
  | [] => pure ()
  | now :: rest => do
      jobStatement fun t => heartbeatJob t jobID workerID leaseGen leaseTime now
      heartbeats jobID workerID leaseGen rest

/-- The worker's report on a job whose runner and checkpoint succeeded. -/
def finishJob (job : Job) (workerID rationale : String) (changedPaths : List String)
    (findings : List ValidationFinding) (questions : List String) (now : Instant) : Action Unit :=
  let status := if changedPaths = [] then JobState.noChange else .succeeded
  jobStatement fun t => completeJob t job.id workerID job.leaseGeneration status
    ⟨rationale, changedPaths, findings, questions, "", ""⟩ now

/-- A claimed job, from the lookup of its source to its end. -/
def runJob (turn : Turn) (job : Job) : Action Unit := do
  let w ← Prog.get
  if (w.store.listSources migrationID).any fun e => decide (e.id = job.sourceID) then do
    Prog.ignore (heartbeats job.id we.workerID job.leaseGeneration turn.heartbeats)
    match turn.outcome with
    | .runnerError message =>
        Prog.ignore (failOrRetryJob job.id we.workerID job.leaseGeneration "Runner error"
          "runner_error" message turn.endAt)
    | .checkpointError message =>
        Prog.ignore (failOrRetryJob job.id we.workerID job.leaseGeneration "Checkpoint error"
          "checkpoint_error" message turn.endAt)
    | .finished rationale changedPaths findings questions =>
        Prog.ignore (finishJob job we.workerID rationale changedPaths findings questions turn.endAt)
  else
    Prog.ignore (jobStatement fun t => completeJob t job.id we.workerID job.leaseGeneration
      .failed ⟨"Source entry missing", [], [], [], "missing_source", ""⟩ turn.endAt)

/-- How a turn ends: the migration is halted, no job was runnable, or one ran. -/
inductive TurnEnd where
  | halted | idle | ran
  deriving DecidableEq, Repr

/-- One turn of the loop in `RunUntilIdle`. -/
def runTurn (turn : Turn) : Action TurnEnd := do
  let w ← Prog.get
  match (w.store.migrations.get migrationID).filter Migration.halted with
  | some mig => do
      Prog.ignore (updateMigrationState migrationID .stopped (some mig.state))
      pure .halted
  | none =>
      match claimNextJob w.store.jobs migrationID we.workerID leaseTime turn.claimAt turn.pick with
      | none => pure .idle
      | some (job, t) => do
          Prog.write fun w => w.setStore (w.store.setJobs t)
          runJob we migrationID turn job
          pure .ran

/-- The revision a checkpoint is recorded as. -/
def nextRevision (s : Store) (c : Checkpoint) : ReviewRevision :=
  let revs := s.listRevisions migrationID
  let nextRevNum := revs.length + 1
  { id := "rev-" ++ toString nextRevNum ++ "-" ++ migrationID
    migrationID := migrationID
    revisionNum := nextRevNum
    baselineHash := ((s.migrations.get migrationID).map Migration.baselineManifest).getD ""
    commitHash := c.commitHash
    treeHash := c.treeHash
    patchHash := c.patchHash
    parentRevID := (revs.getLast?.map ReviewRevision.id).getD "" }

/-- Insert the next revision; its errors carry its number. -/
def recordRevision (c : Checkpoint) : Action Unit := do
  let w ← Prog.get
  let rev := nextRevision migrationID w.store c
  match ← Prog.attempt (storeStatement fun s => s.createRevision rev) with
  | .error e => Prog.fail ("create revision " ++ toString rev.revisionNum ++ ": " ++ e)
  | .ok () => pure ()

/-- `PublishRevisionIfDone`. -/
def publishRevisionIfDone : Action Unit := do
  let w ← Prog.get
  if 0 < w.store.countJobs migrationID .pending + w.store.countJobs migrationID .running then
    pure ()
  else if w.store.listRevisions migrationID ≠ [] then
    if w.stateOf migrationID = some .processing then
      Prog.ignore (updateMigrationState migrationID .readyForReview none)
    else pure ()
  else
    match we.publish with
    | .error e => Prog.fail e
    | .ok c => do
        recordRevision migrationID c
        updateMigrationState migrationID .readyForReview none

/-- `ProcessRevision`. -/
def processRevision : Action Unit := do
  let w ← Prog.get
  if w.store.listRevisions migrationID = [] then
    Prog.fail "cannot revise: no prior revisions found"
  else
    let submitted := w.store.submittedFeedback migrationID
    match we.revision with
    | .error e => Prog.fail e
    | .ok c => do
        recordRevision migrationID c
        Prog.write fun w =>
          w.setStore (w.store.markFeedbackAddressed (submitted.map FeedbackItem.id))
        updateMigrationState migrationID .readyForReview none

/-- The loop of `RunUntilIdle`. -/
def runTurns : List Turn → Action Unit
  | [] => Prog.fail "context canceled"
  | turn :: rest => do
      match ← runTurn we migrationID turn with
      | .halted => pure ()
      | .idle => publishRevisionIfDone we migrationID
      | .ran => runTurns rest

/-- `RunUntilIdle`. -/
def runUntilIdle : Action Unit := do
  match we.lockError with
  | some e => Prog.fail e
  | none => do
      Prog.ignore (sweepExpiredJobs migrationID we.now)
      let w ← Prog.get
      match w.store.migrations.get migrationID with
      | none => runTurns we migrationID we.turns
      | some mig =>
          if mig.halted then
            Prog.ignore (updateMigrationState migrationID .stopped (some mig.state))
          else if mig.state = .revising ∨ w.store.submittedFeedback migrationID ≠ [] then
            processRevision we migrationID
          else runTurns we migrationID we.turns

/-! ## Lifecycle calls -/

def migrationNotFound : String := "migration " ++ migrationID ++ " not found"

/-- `RunMigrationSupervisor`. -/
def runMigrationSupervisor : Action Unit := do
  let w ← Prog.get
  match w.store.migrations.get migrationID with
  | none => Prog.fail (migrationNotFound migrationID)
  | some _ =>
      match we.repoError with
      | some e => Prog.fail e
      | none => do
          Prog.ignore (updateMigrationState migrationID .processing none)
          runUntilIdle we migrationID

/-- `StopMigration`. -/
def stopMigration : Action Unit := do
  let w ← Prog.get
  match w.store.migrations.get migrationID with
  | none => Prog.fail (migrationNotFound migrationID)
  | some mig =>
      if mig.state = .applying ∨ mig.state = .applied then
        Prog.fail ("cannot stop migration in " ++ mig.state.text ++ " state")
      else do
        setStopIntent migrationID true
        updateMigrationState migrationID .stopped (some mig.state)

/-- The state `ResumeMigration` asks for. -/
def Migration.resumeTarget (m : Migration) : MigrationState :=
  if m.state = .revising ∨ m.savedPhase = some .revising then .revising
  else m.savedPhase.getD .processing

/-- `ResumeMigration` before it runs the supervisor. -/
def resumePhase (now : Instant) : Action Unit := do
  let w ← Prog.get
  match w.store.migrations.get migrationID with
  | none => Prog.fail (migrationNotFound migrationID)
  | some mig => do
      setStopIntent migrationID false
      jobStatement fun t => .ok (resetFailedJobs t migrationID now)
      updateMigrationState migrationID mig.resumeTarget none

/-- `ResumeMigration`. -/
def resumeMigration : Action Unit := do
  resumePhase migrationID we.now
  runMigrationSupervisor we migrationID

/-- `DiscardMigration`. -/
def discardMigration : Action Unit := do
  let w ← Prog.get
  match w.store.migrations.get migrationID with
  | none => Prog.fail (migrationNotFound migrationID)
  | some mig =>
      if mig.state = .applying ∨ mig.state = .recoveryRequired then
        Prog.fail ("cannot discard migration in " ++ mig.state.text ++ " state")
      else do
        setStopIntent migrationID true
        updateMigrationState migrationID .discarded none

/-- The command `retry-jobs` before its background worker. -/
def retryJobs (now : Instant) : Action Unit := do
  jobStatement fun t => .ok (resetFailedJobs t migrationID now)
  Prog.ignore (updateMigrationState migrationID .processing none)

/-- `unicode.IsSpace`. -/
def isSpace (c : Char) : Bool :=
  [0x9, 0xA, 0xB, 0xC, 0xD, 0x20, 0x85, 0xA0, 0x1680, 0x2028, 0x2029, 0x202F, 0x205F, 0x3000].contains
    c.toNat || decide (0x2000 ≤ c.toNat ∧ c.toNat ≤ 0x200A)

/-- `strings.HasPrefix(strings.TrimSpace(comment), "[CHANGES REQUESTED]")`. -/
def requestsChanges (comment : String) : Bool :=
  "[CHANGES REQUESTED]".toList.isPrefixOf (comment.toList.dropWhile isSpace)

/-- What the command `feedback` is given. -/
structure FeedbackInput where
  now : Instant
  revisionID : String
  targetPath : String
  comment : String
  deriving DecidableEq, Repr

/-- The command `feedback` before its background worker. -/
def feedback (input : FeedbackInput) : Action Unit := do
  let w ← Prog.get
  match w.store.migrations.get migrationID with
  | none => Prog.fail (migrationNotFound migrationID)
  | some mig => do
      let targetRev := if input.revisionID = "" then mig.activeRevisionID else input.revisionID
      storeStatement fun s => s.addFeedback ⟨"fb-" ++ toString input.now, migrationID, targetRev,
        input.targetPath, input.comment, .submitted⟩
      if requestsChanges input.comment then
        Prog.ignore (updateMigrationState migrationID .revising none)
      else pure ()

end Openlia.Operator
