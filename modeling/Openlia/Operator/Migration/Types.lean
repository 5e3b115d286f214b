import Openlia.Lib.Table

/-! # Migration states and rows

The enumerations and rows of `migration/types.go` and the transition table of
`migration/db.go`. Times are nanoseconds; a column holds a time formatted by
`time.RFC3339`, which keeps whole seconds.
-/

namespace Openlia.Operator

abbrev Path := List String
abbrev Bytes := List UInt8

/-- Nanoseconds since the epoch. -/
abbrev Instant := Nat

/-- `t.Format(time.RFC3339)`: the fraction of the second is cut off, and two
formatted UTC times compare as their seconds do. -/
def rfc3339 (t : Instant) : Nat := t / 1000000000

def second : Nat := 1000000000

inductive MigrationState where
  | uploaded | queued | processing | validating | readyForReview | revising | applying
  | rollingBack | applied | stale | stopping | stopped | failed | discarded | recoveryRequired
  deriving DecidableEq, Repr

def MigrationState.text : MigrationState → String
  | .uploaded => "uploaded"
  | .queued => "queued"
  | .processing => "processing"
  | .validating => "validating"
  | .readyForReview => "ready_for_review"
  | .revising => "revising"
  | .applying => "applying"
  | .rollingBack => "rolling_back"
  | .applied => "applied"
  | .stale => "stale"
  | .stopping => "stopping"
  | .stopped => "stopped"
  | .failed => "failed"
  | .discarded => "discarded"
  | .recoveryRequired => "recovery_required"

/-- `ValidStateTransitions`. -/
def validStateTransitions : MigrationState → List MigrationState
  | .uploaded => [.queued, .processing, .stopped, .discarded, .failed]
  | .queued => [.processing, .stopped, .discarded, .failed]
  | .processing => [.validating, .readyForReview, .stopping, .stopped, .failed, .discarded]
  | .validating => [.readyForReview, .processing, .stopping, .stopped, .failed, .discarded]
  | .readyForReview => [.revising, .processing, .applying, .stale, .stopped, .discarded, .failed]
  | .revising => [.processing, .readyForReview, .stopping, .stopped, .failed, .discarded]
  | .applying => [.applied, .rollingBack, .recoveryRequired, .failed]
  | .rollingBack => [.readyForReview, .recoveryRequired, .failed]
  | .recoveryRequired => [.applying, .readyForReview, .failed]
  | .stale => [.processing, .readyForReview, .stopped, .discarded, .failed]
  | .stopping => [.stopped, .failed]
  | .stopped => [.processing, .queued, .readyForReview, .discarded, .failed]
  | .failed => [.processing, .discarded]
  | .applied => []
  | .discarded => []

/-- `IsValidStateTransition`; a stored state is never the empty string. -/
def isValidStateTransition (src dst : MigrationState) : Bool :=
  decide (src = dst) || (validStateTransitions src).contains dst

def MigrationState.terminal : MigrationState → Bool
  | .applied | .discarded => true
  | _ => false

/-- Nothing leads out of a terminal state. -/
theorem isValidStateTransition_terminal {src dst : MigrationState} (h : src.terminal = true) :
    isValidStateTransition src dst = true ↔ src = dst := by
  cases src <;> simp [MigrationState.terminal] at h <;> simp [isValidStateTransition,
    validStateTransitions]

/-- The row of `migrations`; `savedPhase` is `none` for the empty string. -/
structure Migration where
  id : String
  schema : Nat
  state : MigrationState
  savedPhase : Option MigrationState
  stopIntent : Bool
  baselineManifest : String
  activeRevisionID : String
  deriving DecidableEq, Repr

inductive JobState where
  | pending | running | succeeded | noChange | needsInput | failed | skipped | blocked
  deriving DecidableEq, Repr

structure ValidationFinding where
  severity : String
  domain : String
  message : String
  deriving DecidableEq, Repr

/-- A row of `jobs`. Times are formatted ones. -/
structure Job where
  id : String
  migrationID : String
  sourceID : String
  idempotencyKey : String
  state : JobState
  attempts : Nat
  maxAttempts : Nat
  leaseOwner : Option String
  leaseGeneration : Nat
  leaseExpiresAt : Option Nat
  heartbeatAt : Option Nat
  resultSummary : String
  changedPaths : List String
  findings : List ValidationFinding
  unresolvedQuestions : List String
  errorCode : String
  errorMessage : String
  createdAt : Nat
  updatedAt : Nat
  deriving DecidableEq, Repr

/-- The table `jobs`, keyed by `id TEXT PRIMARY KEY`. -/
abbrev JobTable := Lib.Table Job String Job.id

structure SourceEntry where
  id : String
  migrationID : String
  deriving DecidableEq, Repr

structure ReviewRevision where
  id : String
  migrationID : String
  revisionNum : Nat
  baselineHash : String
  commitHash : String
  treeHash : String
  patchHash : String
  parentRevID : String
  deriving DecidableEq, Repr

abbrev RevisionTable := Lib.Table ReviewRevision String ReviewRevision.id

inductive FeedbackStatus where
  | submitted | addressed
  deriving DecidableEq, Repr

structure FeedbackItem where
  id : String
  migrationID : String
  revisionID : String
  targetPath : String
  comment : String
  status : FeedbackStatus
  deriving DecidableEq, Repr

abbrev FeedbackTable := Lib.Table FeedbackItem String FeedbackItem.id

end Openlia.Operator
