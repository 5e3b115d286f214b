import Openlia.Operator.Migration.Types

/-! # The job table

One definition per function of `migration/db.go` that touches `jobs`, each the
atomic statement or transaction it runs. A function that reads first and
updates in a later statement is given as its two halves.
-/

namespace Openlia.Operator

open Lib

/-- `lease_expires_at < now`; a NULL expiry is never below anything. -/
def Job.leaseExpired (j : Job) (now : Instant) : Bool :=
  match j.leaseExpiresAt with
  | none => false
  | some expiry => decide (expiry < rfc3339 now)

/-- What `EnqueueJobs` is given for one job. -/
structure NewJob where
  id : String
  migrationID : String
  sourceID : String
  idempotencyKey : String
  maxAttempts : Nat
  deriving DecidableEq, Repr

def NewJob.row (j : NewJob) (now : Instant) : Job where
  id := j.id
  migrationID := j.migrationID
  sourceID := j.sourceID
  idempotencyKey := j.idempotencyKey
  state := .pending
  attempts := 0
  maxAttempts := if j.maxAttempts = 0 then 3 else j.maxAttempts
  leaseOwner := none
  leaseGeneration := 0
  leaseExpiresAt := none
  heartbeatAt := none
  resultSummary := ""
  changedPaths := []
  findings := []
  unresolvedQuestions := []
  errorCode := ""
  errorMessage := ""
  createdAt := rfc3339 now
  updatedAt := rfc3339 now

/-- One transaction: a taken id or idempotency key refuses every row. -/
def enqueueJobs (t : JobTable) (now : Instant) : List NewJob → Option JobTable
  | [] => some t
  | j :: rest =>
      if j.idempotencyKey ∈ t.rows.map Job.idempotencyKey then none
      else
        match t.insert (j.row now) with
        | none => none
        | some t' => enqueueJobs t' now rest

/-! ## ClaimNextJob -/

/-- The `WHERE` clause of the claim: pending, or running with an expired lease
and attempts left. -/
def claimable (migrationID : String) (now : Instant) (j : Job) : Bool :=
  decide (j.migrationID = migrationID) &&
    (decide (j.state = .pending) ||
      (decide (j.state = .running) && j.leaseExpired now && decide (j.attempts < j.maxAttempts)))

/-- The rows `ORDER BY created_at ASC LIMIT 1` may return. -/
def nextJobs (t : JobTable) (migrationID : String) (now : Instant) : List Job :=
  let runnable := t.select (claimable migrationID now)
  runnable.filter fun j => runnable.all fun k => decide (j.createdAt ≤ k.createdAt)

def Job.claimedBy (r j : Job) (workerID : String) (leaseDuration : Nat) (now : Instant) : Job :=
  { r with
    state := .running
    attempts := j.attempts + 1
    leaseOwner := some workerID
    leaseGeneration := j.leaseGeneration + 1
    leaseExpiresAt := some (rfc3339 (now + leaseDuration))
    heartbeatAt := some (rfc3339 now)
    updatedAt := rfc3339 now }

@[simp] theorem Job.claimedBy_id (r j : Job) (workerID : String) (leaseDuration : Nat)
    (now : Instant) : (r.claimedBy j workerID leaseDuration now).id = r.id := rfl

/-- `ClaimNextJob`: `pick` says which of the oldest runnable rows the query
returned. The answer is the claimed row. -/
def claimNextJob (t : JobTable) (migrationID workerID : String) (leaseDuration : Nat)
    (now : Instant) (pick : Nat) : Option (Job × JobTable) :=
  let rows := nextJobs t migrationID now
  match rows[pick % rows.length]? with
  | none => none
  | some j =>
      some (j.claimedBy j workerID leaseDuration now,
        t.update (fun r => decide (r.id = j.id ∧ r.leaseGeneration = j.leaseGeneration))
          (fun r => r.claimedBy j workerID leaseDuration now)
          fun r => r.claimedBy_id j workerID leaseDuration now)

/-! ## Heartbeat and completion -/

/-- `id = ? AND lease_owner = ? AND lease_generation = ?`. -/
def Job.leasedTo (r : Job) (jobID workerID : String) (leaseGen : Nat) : Bool :=
  decide (r.id = jobID ∧ r.leaseOwner = some workerID ∧ r.leaseGeneration = leaseGen)

def heartbeatJob (t : JobTable) (jobID workerID : String) (leaseGen leaseDuration : Nat)
    (now : Instant) : Except String JobTable :=
  let held := fun r : Job => r.leasedTo jobID workerID leaseGen && decide (r.state = .running)
  if t.affected held = 0 then
    .error "heartbeat rejected: lease lost or job no longer running"
  else
    .ok (t.update held (fun r =>
      { r with
        heartbeatAt := some (rfc3339 now)
        leaseExpiresAt := some (rfc3339 (now + leaseDuration))
        updatedAt := rfc3339 now }) fun _ => rfl)

/-- What a worker reports about a finished job. -/
structure JobReport where
  summary : String
  changedPaths : List String
  findings : List ValidationFinding
  questions : List String
  errCode : String
  errMsg : String
  deriving DecidableEq, Repr

def Job.completedAs (r : Job) (state : JobState) (rep : JobReport) (now : Instant) : Job :=
  { r with
    state := state
    resultSummary := rep.summary
    changedPaths := rep.changedPaths
    findings := rep.findings
    unresolvedQuestions := rep.questions
    errorCode := rep.errCode
    errorMessage := rep.errMsg
    leaseOwner := none
    leaseExpiresAt := none
    updatedAt := rfc3339 now }

/-- `CompleteJob`: fenced by owner and generation when both are given. -/
def completeJob (t : JobTable) (jobID workerID : String) (leaseGen : Nat) (state : JobState)
    (rep : JobReport) (now : Instant) : Except String JobTable :=
  if workerID ≠ "" ∧ 0 < leaseGen then
    if t.affected (fun r => r.leasedTo jobID workerID leaseGen) = 0 then
      .error "complete job rejected: lease expired or claimed by another generation"
    else
      .ok (t.update (fun r => r.leasedTo jobID workerID leaseGen)
        (fun r => r.completedAs state rep now) fun _ => rfl)
  else
    .ok (t.update (fun r => decide (r.id = jobID)) (fun r => r.completedAs state rep now)
      fun _ => rfl)

/-- A fenced completion is rejected or touches only the rows leased to its caller. -/
theorem completeJob_fenced (t : JobTable) (jobID : String) (state : JobState) (rep : JobReport)
    (now : Instant) {workerID : String} {leaseGen : Nat} (h : workerID ≠ "" ∧ 0 < leaseGen) :
    (∃ e, completeJob t jobID workerID leaseGen state rep now = .error e) ∨
      completeJob t jobID workerID leaseGen state rep now =
        .ok (t.update (fun r => r.leasedTo jobID workerID leaseGen)
          (fun r => r.completedAs state rep now) fun _ => rfl) := by
  unfold completeJob
  rw [if_pos h]
  split
  · exact Or.inl ⟨_, rfl⟩
  · exact Or.inr rfl

/-! ## FailOrRetryJob -/

/-- The `SELECT attempts, max_attempts` of `FailOrRetryJob`. -/
def failOrRetryRead (t : JobTable) (jobID : String) : Except String (Nat × Nat) :=
  match t.get jobID with
  | none => .error "sql: no rows in result set"
  | some j => .ok (j.attempts, j.maxAttempts)

def Job.retried (r : Job) (summary errCode errMsg : String) (now : Instant) : Job :=
  { r with
    state := .pending
    resultSummary := summary
    errorCode := errCode
    errorMessage := errMsg
    leaseOwner := none
    leaseExpiresAt := none
    updatedAt := rfc3339 now }

/-- The update of `FailOrRetryJob` after its read; the answer says whether the
job was queued again. -/
def failOrRetryWrite (t : JobTable) (attempts maxAttempts : Nat) (jobID workerID : String)
    (leaseGen : Nat) (summary errCode errMsg : String) (now : Instant) :
    Except String (Bool × JobTable) :=
  if attempts < maxAttempts then
    if workerID ≠ "" ∧ 0 < leaseGen then
      if t.affected (fun r => r.leasedTo jobID workerID leaseGen) = 0 then
        .error "fail/retry job rejected: lease expired"
      else
        .ok (true, t.update (fun r => r.leasedTo jobID workerID leaseGen)
          (fun r => r.retried summary errCode errMsg now) fun _ => rfl)
    else
      .ok (true, t.update (fun r => decide (r.id = jobID))
        (fun r => r.retried summary errCode errMsg now) fun _ => rfl)
  else
    match completeJob t jobID workerID leaseGen .failed ⟨summary, [], [], [], errCode, errMsg⟩
        now with
    | .error e => .error e
    | .ok t' => .ok (false, t')

/-! ## SweepExpiredJobs -/

structure ExpiredJob where
  id : String
  attempts : Nat
  maxAttempts : Nat
  deriving DecidableEq, Repr

/-- The `SELECT` of `SweepExpiredJobs`. -/
def sweepRead (t : JobTable) (migrationID : String) (now : Instant) : List ExpiredJob :=
  (t.select fun j => decide (j.migrationID = migrationID) && decide (j.state = .running) &&
    j.leaseExpired now).map fun j => ⟨j.id, j.attempts, j.maxAttempts⟩

def Job.sweptFailed (r : Job) (now : Instant) : Job :=
  { r with
    state := .failed
    leaseOwner := none
    leaseExpiresAt := none
    errorCode := "lease_expired"
    errorMessage := "Job lease expired and max attempts reached"
    updatedAt := rfc3339 now }

def Job.sweptPending (r : Job) (now : Instant) : Job :=
  { r with
    state := .pending
    leaseOwner := none
    leaseExpiresAt := none
    updatedAt := rfc3339 now }

/-- What the sweep makes of a row, from the attempts it read. -/
def ExpiredJob.swept (e : ExpiredJob) (now : Instant) (r : Job) : Job :=
  if e.maxAttempts ≤ e.attempts then r.sweptFailed now else r.sweptPending now

theorem ExpiredJob.swept_id (e : ExpiredJob) (now : Instant) (r : Job) :
    (e.swept now r).id = r.id := by
  unfold ExpiredJob.swept
  split <;> rfl

/-- The update of one row the sweep read: `WHERE id = ?` and nothing else. -/
def sweepWrite (t : JobTable) (e : ExpiredJob) (now : Instant) : JobTable :=
  t.update (fun r => decide (r.id = e.id)) (e.swept now) (e.swept_id now)

/-- `ResetFailedJobs`. -/
def resetFailedJobs (t : JobTable) (migrationID : String) (now : Instant) : JobTable :=
  t.update (fun r => decide (r.migrationID = migrationID) && decide (r.state = .failed))
    (fun r =>
      { r with
        state := .pending
        attempts := 0
        errorCode := ""
        errorMessage := ""
        updatedAt := rfc3339 now }) fun _ => rfl

/-! ## What a claim answers -/

theorem mem_nextJobs {t : JobTable} {migrationID : String} {now : Instant} {j : Job}
    (h : j ∈ nextJobs t migrationID now) : j ∈ t.rows ∧ claimable migrationID now j = true := by
  simp only [nextJobs, List.mem_filter] at h
  exact Table.mem_select.mp h.1

/-- A claim updates one runnable row of the table. -/
theorem claimNextJob_spec {t t' : JobTable} {migrationID workerID : String} {leaseDuration : Nat}
    {now : Instant} {pick : Nat} {c : Job}
    (h : claimNextJob t migrationID workerID leaseDuration now pick = some (c, t')) :
    ∃ j ∈ t.rows, claimable migrationID now j = true ∧
      c = j.claimedBy j workerID leaseDuration now ∧
      t' = t.update (fun r => decide (r.id = j.id ∧ r.leaseGeneration = j.leaseGeneration))
        (fun r => r.claimedBy j workerID leaseDuration now)
        fun r => r.claimedBy_id j workerID leaseDuration now := by
  unfold claimNextJob at h
  dsimp only at h
  split at h
  · cases h
  · rename_i j hj
    cases h
    have hm := mem_nextJobs (List.mem_of_getElem? hj)
    exact ⟨j, hm.1, hm.2, rfl, rfl⟩

private theorem exists_oldest (rows : List Job) (h : rows ≠ []) :
    ∃ j ∈ rows, ∀ k ∈ rows, j.createdAt ≤ k.createdAt := by
  induction rows with
  | nil => exact absurd rfl h
  | cons x rest ih =>
      by_cases hr : rest = []
      · subst hr
        exact ⟨x, by simp, by simp⟩
      · obtain ⟨j, hj, hmin⟩ := ih hr
        by_cases hx : x.createdAt ≤ j.createdAt
        · refine ⟨x, by simp, fun k hk => ?_⟩
          rcases List.mem_cons.mp hk with rfl | hk
          · exact Nat.le_refl _
          · exact Nat.le_trans hx (hmin k hk)
        · refine ⟨j, by simp [hj], fun k hk => ?_⟩
          rcases List.mem_cons.mp hk with rfl | hk
          · omega
          · exact hmin k hk

/-- A claim finds nothing exactly when no row is runnable. -/
theorem claimNextJob_eq_none {t : JobTable} {migrationID workerID : String} {leaseDuration : Nat}
    {now : Instant} {pick : Nat} :
    claimNextJob t migrationID workerID leaseDuration now pick = none ↔
      ∀ j ∈ t.rows, claimable migrationID now j = false := by
  have hempty : claimNextJob t migrationID workerID leaseDuration now pick = none ↔
      nextJobs t migrationID now = [] := by
    unfold claimNextJob
    dsimp only
    constructor
    · intro h
      by_contra hne
      have hlt := Nat.mod_lt pick (List.length_pos_of_ne_nil hne)
      rw [List.getElem?_eq_getElem hlt] at h
      cases h
    · intro h
      simp [h]
  rw [hempty]
  constructor
  · intro h j hj
    by_contra hc
    have hne : t.select (claimable migrationID now) ≠ [] :=
      List.ne_nil_of_mem (Table.mem_select.mpr ⟨hj, by simpa using hc⟩)
    obtain ⟨k, hk, hmin⟩ := exists_oldest _ hne
    have hmem : k ∈ nextJobs t migrationID now := by
      simp only [nextJobs, List.mem_filter, List.all_eq_true, decide_eq_true_eq]
      exact ⟨hk, hmin⟩
    rw [h] at hmem
    cases hmem
  · intro h
    rw [List.eq_nil_iff_forall_not_mem]
    intro j hj
    obtain ⟨hm, hc⟩ := mem_nextJobs hj
    rw [h j hm] at hc
    cases hc

end Openlia.Operator
