import Openlia.Operator.Migration.Jobs

/-! # Interleaved workers and sweepers on the job table

Any number of workers and sweepers take steps on one table. A read and the
update that follows it are separate steps: `FailOrRetryJob` and
`SweepExpiredJobs` keep what they read while others run. Workers call with the
owner and generation a claim gave them. The sweep's update by id alone is the
one statement that can undo another's work; `sweepCurrent` says when a row read
by a sweep may still be updated.
-/

namespace Openlia.Operator

open Lib

/-- An owner and generation that a claim handed out. -/
structure Grant where
  jobID : String
  workerID : String
  leaseGen : Nat
  deriving DecidableEq, Repr

/-- A `FailOrRetryJob` call between its read and its update. -/
structure FailCall where
  grant : Grant
  summary : String
  errCode : String
  errMsg : String
  attempts : Nat
  maxAttempts : Nat
  deriving DecidableEq, Repr

/-- A `SweepExpiredJobs` call after its read; `readAt` is the time it writes. -/
structure SweepCall where
  readAt : Instant
  expired : List ExpiredJob
  deriving DecidableEq, Repr

structure JobSystem where
  jobs : JobTable
  grants : List Grant
  fails : List FailCall
  sweeps : List SweepCall
  deriving DecidableEq

/-- How a worker ends a job it ran; a finished job is neither pending nor running. -/
inductive JobVerdict where
  | succeeded | noChange | needsInput | failed | skipped | blocked
  deriving DecidableEq, Repr

def JobVerdict.state : JobVerdict → JobState
  | .succeeded => .succeeded
  | .noChange => .noChange
  | .needsInput => .needsInput
  | .failed => .failed
  | .skipped => .skipped
  | .blocked => .blocked

inductive JobAction where
  | claim (migrationID workerID : String) (leaseDuration pick : Nat)
  | heartbeat (grant : Grant) (leaseDuration : Nat)
  | complete (grant : Grant) (verdict : JobVerdict) (report : JobReport)
  | failRead (grant : Grant) (summary errCode errMsg : String)
  | failWrite (call : Nat)
  | sweepRead (migrationID : String)
  | sweepWrite (call : Nat)
  deriving DecidableEq, Repr

namespace JobSystem

/-- The table after a call that may be rejected: a rejection changes nothing. -/
def orUnchanged (t : JobTable) : Except String JobTable → JobTable
  | .ok t' => t'
  | .error _ => t

/-- One step of one caller at time `now`. -/
def step (s : JobSystem) (a : JobAction) (now : Instant) : JobSystem :=
  match a with
  | .claim migrationID workerID leaseDuration pick =>
      match claimNextJob s.jobs migrationID workerID leaseDuration now pick with
      | none => s
      | some (j, t) => { s with jobs := t, grants := ⟨j.id, workerID, j.leaseGeneration⟩ :: s.grants }
  | .heartbeat g leaseDuration =>
      let r := heartbeatJob s.jobs g.jobID g.workerID g.leaseGen leaseDuration now
      { s with jobs := orUnchanged s.jobs r }
  | .complete g verdict report =>
      let r := completeJob s.jobs g.jobID g.workerID g.leaseGen verdict.state report now
      { s with jobs := orUnchanged s.jobs r }
  | .failRead g summary errCode errMsg =>
      match failOrRetryRead s.jobs g.jobID with
      | .error _ => s
      | .ok (attempts, maxAttempts) =>
          { s with fails := s.fails ++ [⟨g, summary, errCode, errMsg, attempts, maxAttempts⟩] }
  | .failWrite k =>
      match s.fails[k]? with
      | none => s
      | some c =>
          let r := failOrRetryWrite s.jobs c.attempts c.maxAttempts c.grant.jobID c.grant.workerID
            c.grant.leaseGen c.summary c.errCode c.errMsg now
          { s with jobs := orUnchanged s.jobs (r.map Prod.snd), fails := s.fails.eraseIdx k }
  | .sweepRead migrationID =>
      { s with sweeps := s.sweeps ++ [⟨now, Operator.sweepRead s.jobs migrationID now⟩] }
  | .sweepWrite k =>
      match s.sweeps[k]? with
      | some ⟨readAt, e :: rest⟩ =>
          { s with
            jobs := Operator.sweepWrite s.jobs e readAt
            sweeps := s.sweeps.set k ⟨readAt, rest⟩ }
      | _ => s

/-- What a caller may do: a worker has a name and acts under a claim it was
granted. -/
def Enabled (s : JobSystem) : JobAction → Prop
  | .claim _ workerID _ _ => workerID ≠ ""
  | .heartbeat g _ => g ∈ s.grants
  | .complete g _ _ => g ∈ s.grants
  | .failRead g _ _ _ => g ∈ s.grants
  | _ => True

instance (s : JobSystem) (a : JobAction) : Decidable (s.Enabled a) := by
  cases a <;> simp only [Enabled] <;> infer_instance

end JobSystem

/-! ## What must hold of a job -/

/-- The two states that record work done. -/
def JobState.finished : JobState → Bool
  | .succeeded | .noChange => true
  | _ => false

/-- A worker holds the job under a lease that has not expired. -/
def Job.holdsLease (j : Job) (now : Instant) : Bool :=
  decide (j.state = .running) && j.leaseExpiresAt.isSome && !j.leaseExpired now

/-- The step is the holder of `j`'s lease reporting the end of its own job. -/
def JobAction.endsLease (s : JobSystem) (a : JobAction) (j : Job) : Bool :=
  match a with
  | .complete g _ _ => j.leasedTo g.jobID g.workerID g.leaseGen
  | .failWrite k =>
      match s.fails[k]? with
      | some c => j.leasedTo c.grant.jobID c.grant.workerID c.grant.leaseGen
      | none => false
  | _ => false

/-- What one step may do to one job. -/
structure JobSafe (s : JobSystem) (a : JobAction) (now : Instant) (j j' : Job) : Prop where
  finished : j.state.finished = true → j'.state = j.state
  lease : j.holdsLease now = true → a.endsLease s j = false →
    j'.state = .running ∧ j'.leaseOwner = j.leaseOwner ∧ j'.leaseGeneration = j.leaseGeneration
  generation : j.leaseGeneration ≤ j'.leaseGeneration
  attempts : j'.attempts ≤ j'.maxAttempts

/-- The step is safe for every job of the table. -/
def StepSafe (s : JobSystem) (a : JobAction) (now : Instant) (s' : JobSystem) : Prop :=
  ∀ id j, s.jobs.get id = some j → ∃ j', s'.jobs.get id = some j' ∧ JobSafe s a now j j'

/-- A row the sweep read may still be updated: it records no finished work, its
lease has run out, and it is not queued again with its attempts used up. -/
def ExpiredJob.current (e : ExpiredJob) (now : Instant) (j : Job) : Bool :=
  !j.state.finished && !j.holdsLease now &&
    (decide (e.maxAttempts ≤ e.attempts) || decide (j.attempts < j.maxAttempts))

/-- The row a sweep is about to update may still be updated. -/
def sweepCurrent (s : JobSystem) (a : JobAction) (now : Instant) : Bool :=
  match a with
  | .sweepWrite k =>
      match s.sweeps[k]? with
      | some ⟨_, e :: _⟩ => (s.jobs.get e.id).all (e.current now)
      | _ => true
  | _ => true

/-! ## Runs -/

/-- One step of a run with the states around it. -/
structure JobStep where
  before : JobSystem
  action : JobAction
  now : Instant
  after : JobSystem

inductive JobRun (s₀ : JobSystem) : List JobStep → JobSystem → Prop
  | start : JobRun s₀ [] s₀
  | step {steps : List JobStep} {s : JobSystem} (a : JobAction) (now : Instant) :
      JobRun s₀ steps s → s.Enabled a →
      JobRun s₀ (steps ++ [⟨s, a, now, s.step a now⟩]) (s.step a now)

/-- Nobody has called yet and the table is what `EnqueueJobs` wrote. -/
def JobSystem.enqueued (t : JobTable) : JobSystem := ⟨t, [], [], []⟩

/-! ## The invariant -/

/-- Only a running job has an owner; a pending job has attempts left. -/
structure JobOk (j : Job) : Prop where
  owner : j.leaseOwner ≠ none → j.state = .running
  pending : j.state = .pending → j.attempts < j.maxAttempts
  attempts : j.attempts ≤ j.maxAttempts

/-- What a job keeps through every step, whoever takes it. -/
structure JobMoves (j j' : Job) : Prop where
  maxAttempts : j'.maxAttempts = j.maxAttempts
  generation : (j'.leaseGeneration = j.leaseGeneration ∧ j'.attempts = j.attempts) ∨
    j'.leaseGeneration = j.leaseGeneration + 1

/-- A grant is fenced and never ahead of the table. -/
structure Grant.Ok (t : JobTable) (g : Grant) : Prop where
  workerID : g.workerID ≠ ""
  leaseGen : 0 < g.leaseGen
  le : ∀ j, t.get g.jobID = some j → g.leaseGen ≤ j.leaseGeneration

/-- What a failing worker read is true as long as the generation is its own. -/
def FailCall.ReadOk (t : JobTable) (c : FailCall) : Prop :=
  ∀ j, t.get c.grant.jobID = some j → c.maxAttempts = j.maxAttempts ∧
    (j.leaseGeneration = c.grant.leaseGen → j.attempts = c.attempts)

structure JobInv (s : JobSystem) : Prop where
  rows : ∀ j ∈ s.jobs.rows, JobOk j
  grants : ∀ g ∈ s.grants, g.Ok s.jobs
  fails : ∀ c ∈ s.fails, c.grant ∈ s.grants ∧ c.ReadOk s.jobs

theorem JobMoves.refl (j : Job) : JobMoves j j := ⟨rfl, Or.inl ⟨rfl, rfl⟩⟩

theorem JobOk.row_eq (j : NewJob) (now : Instant) : JobOk (j.row now) := by
  refine ⟨fun h => absurd rfl h, fun _ => ?_, Nat.zero_le _⟩
  simp only [NewJob.row]
  split <;> omega

theorem enqueueJobs_ok {t t' : JobTable} {now : Instant} {js : List NewJob}
    (h : enqueueJobs t now js = some t') (ht : ∀ j ∈ t.rows, JobOk j) :
    ∀ j ∈ t'.rows, JobOk j := by
  induction js generalizing t with
  | nil =>
      cases h
      exact ht
  | cons x rest ih =>
      unfold enqueueJobs at h
      split at h
      · cases h
      · split at h
        · cases h
        · rename_i t1 hins
          refine ih h fun j hj => ?_
          rcases (Table.mem_insert hins).mp hj with hj | rfl
          · exact ht j hj
          · exact JobOk.row_eq x now

/-- A job leased to a worker is running, so it is neither finished nor pending. -/
theorem JobOk.running_of_leasedTo {j : Job} {jobID workerID : String} {leaseGen : Nat}
    (h : JobOk j) (hl : j.leasedTo jobID workerID leaseGen = true) : j.state = .running := by
  apply h.owner
  simp only [Job.leasedTo, decide_eq_true_eq] at hl
  rw [hl.2.1]
  simp

theorem not_holdsLease_of_claimable {migrationID : String} {now : Instant} {j : Job}
    (h : claimable migrationID now j = true) : j.holdsLease now = false := by
  simp only [claimable, Bool.and_eq_true, Bool.or_eq_true, decide_eq_true_eq] at h
  rcases h.2 with hp | ⟨⟨_, he⟩, _⟩
  · simp [Job.holdsLease, hp]
  · simp [Job.holdsLease, he]

/-! ## One step -/

/-- A job moved safely and still in order. -/
structure JobStepOk (s : JobSystem) (a : JobAction) (now : Instant) (j j' : Job) : Prop where
  moves : JobMoves j j'
  ok : JobOk j'
  safe : JobSafe s a now j j'

/-- Each statement moves each job safely; for the sweep's update this needs the
row to be current. -/
theorem step_evolves {s : JobSystem} (hs : JobInv s) {a : JobAction} {now : Instant}
    (hc : sweepCurrent s a now = true) (ha : s.Enabled a) :
    s.jobs.Evolves (JobStepOk s a now) (s.step a now).jobs := by
  have hstay : ∀ j ∈ s.jobs.rows, JobStepOk s a now j j := by
    intro j hj
    have hok := hs.rows j hj
    refine ⟨JobMoves.refl j, hok, fun _ => rfl, fun hl _ => ⟨?_, rfl, rfl⟩, Nat.le_refl _,
      hok.attempts⟩
    simp only [Job.holdsLease, Bool.and_eq_true, decide_eq_true_eq] at hl
    exact hl.1.1
  -- the holder of a lease ends its own job
  have hend : ∀ (g : Grant) (j j' : Job), JobOk j →
      j.leasedTo g.jobID g.workerID g.leaseGen = true → a.endsLease s j = true →
      j'.maxAttempts = j.maxAttempts → j'.leaseGeneration = j.leaseGeneration →
      j'.attempts = j.attempts → JobOk j' → JobStepOk s a now j j' := by
    intro g j j' hok hl he hmax hgen hatt hok'
    refine ⟨⟨hmax, Or.inl ⟨hgen, hatt⟩⟩, hok', fun hf => ?_, fun _ hne => ?_, by omega,
      hok'.attempts⟩
    · rw [hok.running_of_leasedTo hl] at hf
      cases hf
    · rw [he] at hne
      cases hne
  cases a with
  | claim migrationID workerID leaseDuration pick =>
      simp only [JobSystem.step]
      split
      · exact Table.Evolves.refl hstay
      · rename_i c t' hclaim
        obtain ⟨j, hj, hcl, rfl, rfl⟩ := claimNextJob_spec hclaim
        refine Table.Evolves.update (by intro r; rfl) (fun r hr hp => ?_) fun r hr _ => hstay r hr
        simp only [decide_eq_true_eq] at hp
        obtain rfl : r = j := Table.eq_of_key_eq hr hj hp.1
        have hok := hs.rows r hr
        have hlt : r.attempts < r.maxAttempts := by
          simp only [claimable, Bool.and_eq_true, Bool.or_eq_true, decide_eq_true_eq] at hcl
          rcases hcl.2 with hpend | hrun
          · exact hok.pending hpend
          · exact hrun.2
        refine ⟨⟨rfl, Or.inr rfl⟩, ⟨fun _ => rfl, by simp [Job.claimedBy], hlt⟩, fun hf => ?_,
          fun hl _ => ?_, Nat.le_succ _, hlt⟩
        · simp only [claimable, Bool.and_eq_true, Bool.or_eq_true, decide_eq_true_eq] at hcl
          rcases hcl.2 with hpend | ⟨⟨hrun, _⟩, _⟩
          · rw [hpend] at hf; cases hf
          · rw [hrun] at hf; cases hf
        · rw [not_holdsLease_of_claimable hcl] at hl
          cases hl
  | heartbeat g leaseDuration =>
      simp only [JobSystem.step, heartbeatJob]
      split
      · exact Table.Evolves.refl hstay
      · refine Table.Evolves.update (by intro r; rfl) (fun r hr hp => ?_) fun r hr _ => hstay r hr
        simp only [Bool.and_eq_true, decide_eq_true_eq] at hp
        have hok := hs.rows r hr
        exact ⟨⟨rfl, Or.inl ⟨rfl, rfl⟩⟩, ⟨hok.owner, hok.pending, hok.attempts⟩, fun _ => rfl,
          fun _ _ => ⟨hp.2, rfl, rfl⟩, Nat.le_refl _, hok.attempts⟩
  | complete g verdict report =>
      obtain ⟨hw, hg, -⟩ := hs.grants g ha
      simp only [JobSystem.step]
      rcases completeJob_fenced s.jobs g.jobID verdict.state report now ⟨hw, hg⟩ with ⟨e, he⟩ | he
      · rw [he]
        exact Table.Evolves.refl hstay
      · rw [he]
        refine Table.Evolves.update (by intro r; rfl) (fun r hr hp => ?_) fun r hr _ => hstay r hr
        have hok := hs.rows r hr
        refine hend g r _ hok hp hp rfl rfl rfl ⟨fun h => absurd rfl h, fun h => ?_, hok.attempts⟩
        cases verdict <;> cases h
  | failRead g summary errCode errMsg =>
      simp only [JobSystem.step]
      split <;> exact Table.Evolves.refl hstay
  | failWrite k =>
      simp only [JobSystem.step]
      split
      · exact Table.Evolves.refl hstay
      · rename_i c hk
        obtain ⟨hmem, hread⟩ := hs.fails c (List.mem_of_getElem? hk)
        obtain ⟨hw, hg, -⟩ := hs.grants c.grant hmem
        have hends : ∀ j : Job, JobAction.endsLease s (.failWrite k) j =
            j.leasedTo c.grant.jobID c.grant.workerID c.grant.leaseGen := by
          intro j
          simp only [JobAction.endsLease, hk]
        simp only [failOrRetryWrite, if_pos (And.intro hw hg)]
        split
        · rename_i hlt
          split
          · exact Table.Evolves.refl hstay
          · refine Table.Evolves.update (by intro r; rfl) (fun r hr hp => ?_) fun r hr _ => hstay r hr
            have hok := hs.rows r hr
            refine hend c.grant r _ hok hp (by rw [hends]; exact hp) rfl rfl rfl
              ⟨fun h => absurd rfl h, fun _ => ?_, hok.attempts⟩
            simp only [Job.leasedTo, decide_eq_true_eq] at hp
            obtain ⟨hid, -, hgen⟩ := hp
            obtain ⟨hmax, hatt⟩ := hread r (hid ▸ Table.get_of_mem hr)
            simp only [Job.retried]
            rw [hatt hgen, ← hmax]
            exact hlt
        · have hcases := completeJob_fenced s.jobs c.grant.jobID .failed
            ⟨c.summary, [], [], [], c.errCode, c.errMsg⟩ now ⟨hw, hg⟩
          rcases hcases with ⟨e, he⟩ | he
          · rw [he]
            exact Table.Evolves.refl hstay
          · rw [he]
            refine Table.Evolves.update (by intro r; rfl) (fun r hr hp => ?_) fun r hr _ => hstay r hr
            have hok := hs.rows r hr
            exact hend c.grant r _ hok hp (by rw [hends]; exact hp) rfl rfl rfl
              ⟨fun h => absurd rfl h, (by intro h; cases h), hok.attempts⟩
  | sweepRead migrationID => exact Table.Evolves.refl hstay
  | sweepWrite k =>
      simp only [JobSystem.step]
      split
      · rename_i readAt e rest hk
        refine Table.Evolves.update (e.swept_id readAt) (fun r hr hp => ?_) fun r hr _ => hstay r hr
        simp only [decide_eq_true_eq] at hp
        have hok := hs.rows r hr
        have hget : s.jobs.get e.id = some r := hp ▸ Table.get_of_mem hr
        have hcur : e.current now r = true := by simpa [sweepCurrent, hk, hget] using hc
        simp only [ExpiredJob.current, Bool.and_eq_true, Bool.not_eq_true', Bool.or_eq_true,
          decide_eq_true_eq] at hcur
        obtain ⟨⟨hfin, hlease⟩, hatt⟩ := hcur
        have hsafe : ∀ j' : Job, j'.leaseGeneration = r.leaseGeneration →
            j'.attempts = r.attempts → j'.maxAttempts = r.maxAttempts →
            JobSafe s (.sweepWrite k) now r j' := by
          intro j' hgen hat hmax
          refine ⟨fun hf => ?_, fun hl _ => ?_, by omega, by rw [hat, hmax]; exact hok.attempts⟩
          · rw [hfin] at hf; cases hf
          · rw [hlease] at hl; cases hl
        unfold ExpiredJob.swept
        split
        · exact ⟨⟨rfl, Or.inl ⟨rfl, rfl⟩⟩, ⟨fun h => absurd rfl h, (by intro h; cases h),
            hok.attempts⟩, hsafe _ rfl rfl rfl⟩
        · rename_i hlt
          exact ⟨⟨rfl, Or.inl ⟨rfl, rfl⟩⟩, ⟨fun h => absurd rfl h,
            fun _ => hatt.resolve_left hlt, hok.attempts⟩, hsafe _ rfl rfl rfl⟩
      · exact Table.Evolves.refl hstay

/-! ## Every run -/

theorem Grant.Ok.evolves {s : JobSystem} {a : JobAction} {now : Instant} {t t' : JobTable}
    {g : Grant} (hg : g.Ok t) (h : t.Evolves (JobStepOk s a now) t') : g.Ok t' := by
  refine ⟨hg.workerID, hg.leaseGen, fun j' hj' => ?_⟩
  obtain ⟨j, hj, hstep⟩ := h.get_back hj'
  exact Nat.le_trans (hg.le j hj) hstep.safe.generation

theorem FailCall.ReadOk.evolves {s : JobSystem} {a : JobAction} {now : Instant} {t t' : JobTable}
    {c : FailCall} (hc : c.ReadOk t) (hg : c.grant.Ok t)
    (h : t.Evolves (JobStepOk s a now) t') : c.ReadOk t' := by
  intro j' hj'
  obtain ⟨j, hj, hstep⟩ := h.get_back hj'
  obtain ⟨hmax, hatt⟩ := hc j hj
  refine ⟨by rw [hmax, hstep.moves.maxAttempts], fun hgen => ?_⟩
  rcases hstep.moves.generation with ⟨hsame, hat⟩ | hnext
  · rw [hat]
    exact hatt (hsame ▸ hgen)
  · have hle := hg.le j hj
    omega

/-- New grants come from claims and name the generation now in the table. -/
theorem step_grants (s : JobSystem) (a : JobAction) (now : Instant) (ha : s.Enabled a) :
    (∀ g ∈ s.grants, g ∈ (s.step a now).grants) ∧
      ∀ g ∈ (s.step a now).grants, g ∈ s.grants ∨ g.Ok (s.step a now).jobs := by
  cases a with
  | claim migrationID workerID leaseDuration pick =>
      simp only [JobSystem.step]
      split
      · exact ⟨fun g hg => hg, fun g hg => Or.inl hg⟩
      · rename_i c t' hclaim
        obtain ⟨j, hj, hcl, rfl, rfl⟩ := claimNextJob_spec hclaim
        refine ⟨fun g hg => List.mem_cons_of_mem _ hg, fun g hg => ?_⟩
        rcases List.mem_cons.mp hg with rfl | hg
        · right
          refine ⟨ha, Nat.succ_pos _, fun r hr => ?_⟩
          simp only [Job.claimedBy_id, Table.get_update] at hr
          rw [Table.get_of_mem hj] at hr
          simp only [Option.map_some, and_self, decide_true, ↓reduceIte, Option.some.injEq] at hr
          exact hr ▸ Nat.le_refl _
        · exact Or.inl hg
  | failRead g summary errCode errMsg =>
      simp only [JobSystem.step]
      split <;> exact ⟨fun g hg => hg, fun g hg => Or.inl hg⟩
  | failWrite k =>
      simp only [JobSystem.step]
      split <;> exact ⟨fun g hg => hg, fun g hg => Or.inl hg⟩
  | sweepWrite k =>
      simp only [JobSystem.step]
      split <;> exact ⟨fun g hg => hg, fun g hg => Or.inl hg⟩
  | heartbeat g leaseDuration => exact ⟨fun g hg => hg, fun g hg => Or.inl hg⟩
  | complete g verdict report => exact ⟨fun g hg => hg, fun g hg => Or.inl hg⟩
  | sweepRead migrationID => exact ⟨fun g hg => hg, fun g hg => Or.inl hg⟩

/-- A failing worker's read is true when it is made and changes nothing. -/
theorem step_fails (s : JobSystem) (a : JobAction) (now : Instant) (ha : s.Enabled a) :
    ∀ c ∈ (s.step a now).fails, c ∈ s.fails ∨
      (c.grant ∈ s.grants ∧ c.ReadOk s.jobs ∧ (s.step a now).jobs = s.jobs) := by
  cases a with
  | failRead g summary errCode errMsg =>
      simp only [JobSystem.step]
      split
      · exact fun c hc => Or.inl hc
      · rename_i attempts maxAttempts hread
        intro c hc
        rcases List.mem_append.mp hc with hc | hc
        · exact Or.inl hc
        · right
          rw [List.mem_singleton] at hc
          subst hc
          refine ⟨ha, fun j hj => ?_, rfl⟩
          simp only [failOrRetryRead, hj, Except.ok.injEq, Prod.mk.injEq] at hread
          exact ⟨hread.2.symm, fun _ => hread.1⟩
  | failWrite k =>
      simp only [JobSystem.step]
      split
      · exact fun c hc => Or.inl hc
      · exact fun c hc => Or.inl (List.mem_of_mem_eraseIdx hc)
  | claim migrationID workerID leaseDuration pick =>
      simp only [JobSystem.step]
      split <;> exact fun c hc => Or.inl hc
  | sweepWrite k =>
      simp only [JobSystem.step]
      split <;> exact fun c hc => Or.inl hc
  | heartbeat g leaseDuration => exact fun c hc => Or.inl hc
  | complete g verdict report => exact fun c hc => Or.inl hc
  | sweepRead migrationID => exact fun c hc => Or.inl hc

theorem JobInv.step {s : JobSystem} (hs : JobInv s) {a : JobAction} {now : Instant}
    (hc : sweepCurrent s a now = true) (ha : s.Enabled a) : JobInv (s.step a now) := by
  have hev := step_evolves hs hc ha
  obtain ⟨hkeep, hgrants⟩ := step_grants s a now ha
  refine ⟨fun j hj => ?_, fun g hg => ?_, fun c hcall => ?_⟩
  · obtain ⟨r, _, _, hstep⟩ := hev.of_mem hj
    exact hstep.ok
  · rcases hgrants g hg with hold | hnew
    · exact (hs.grants g hold).evolves hev
    · exact hnew
  · rcases step_fails s a now ha c hcall with hold | ⟨hmem, hread, -⟩
    · obtain ⟨hmem, hread⟩ := hs.fails c hold
      exact ⟨hkeep _ hmem, hread.evolves (hs.grants _ hmem) hev⟩
    · exact ⟨hkeep _ hmem, hread.evolves (hs.grants _ hmem) hev⟩

theorem JobInv.enqueued {t : JobTable} {now : Instant} {js : List NewJob}
    (h : enqueueJobs Table.empty now js = some t) : JobInv (JobSystem.enqueued t) :=
  ⟨enqueueJobs_ok h (by intro j hj; cases hj), (by intro g hg; cases hg), (by intro c hc; cases hc)⟩

/-- In a run whose sweeps only update rows that are still as a sweep may leave
them, the invariant holds and every step taken was safe for every job. -/
theorem JobRun.inv_and_safe {s₀ s : JobSystem} {steps : List JobStep} (h₀ : JobInv s₀)
    (run : JobRun s₀ steps s) (hc : ∀ x ∈ steps, sweepCurrent x.before x.action x.now = true) :
    JobInv s ∧ ∀ x ∈ steps, StepSafe x.before x.action x.now x.after := by
  induction run with
  | start => exact ⟨h₀, by simp⟩
  | @step steps s a now run ha ih =>
      obtain ⟨hinv, hsafe⟩ := ih fun x hx => hc x (List.mem_append_left _ hx)
      have hcur : sweepCurrent s a now = true :=
        hc ⟨s, a, now, s.step a now⟩ (List.mem_append_right _ (List.mem_singleton.mpr rfl))
      refine ⟨hinv.step hcur ha, fun x hx => ?_⟩
      rcases List.mem_append.mp hx with hx | hx
      · exact hsafe x hx
      · rw [List.mem_singleton] at hx
        subst hx
        intro id j hj
        obtain ⟨j', hj', hstep⟩ := (step_evolves hinv hcur ha).get hj
        exact ⟨j', hj', hstep.safe⟩

/-- The migration job table is safe in every run whose sweeps only update rows
that a sweep may still update. -/
theorem jobTable_safe {now₀ : Instant} {js : List NewJob} {t : JobTable}
    (henq : enqueueJobs Table.empty now₀ js = some t) {steps : List JobStep} {s : JobSystem}
    (run : JobRun (JobSystem.enqueued t) steps s)
    (hc : ∀ x ∈ steps, sweepCurrent x.before x.action x.now = true) :
    (∀ x ∈ steps, StepSafe x.before x.action x.now x.after) ∧
      ∀ j ∈ s.jobs.rows, j.attempts ≤ j.maxAttempts := by
  obtain ⟨hinv, hsafe⟩ := run.inv_and_safe (JobInv.enqueued henq) hc
  exact ⟨hsafe, fun j hj => (hinv.rows j hj).attempts⟩

/-- One note to import. -/
def noteJob : NewJob := ⟨"job-1", "mig-1", "src-1", "mig-1/src-1", 3⟩

def noteReport : JobReport := ⟨"Processed note", ["notes/sample.md"], [], [], "", ""⟩

/-- The table after `EnqueueJobs` of one note. -/
def noteJobs : JobTable := ⟨[noteJob.row 0], by simp⟩

/-- A worker that crashed is swept and its job is claimed again. -/
theorem jobTable_safe_sweep_then_claim :
    ∃ steps s, JobRun (JobSystem.enqueued noteJobs) steps s ∧ steps.length = 4 ∧
      (∀ x ∈ steps, StepSafe x.before x.action x.now x.after) ∧
      ∀ j ∈ s.jobs.rows, j.attempts ≤ j.maxAttempts := by
  have hstart : JobRun (JobSystem.enqueued noteJobs) [] (JobSystem.enqueued noteJobs) := .start
  have run := ((hstart.step
    (.claim "mig-1" "worker-1" second 0) 0 (by decide)).step
    (.sweepRead "mig-1") (2 * second) (by decide)).step
    (.sweepWrite 0) (2 * second) (by decide) |>.step
    (.claim "mig-1" "worker-2" second 0) (3 * second) (by decide)
  have henq : enqueueJobs Table.empty 0 [noteJob] = some noteJobs := rfl
  refine ⟨_, _, run, rfl, jobTable_safe henq run ?_⟩
  decide

/-- A completion between the sweep's read and its update is undone: the
finished job is pending again. -/
theorem sweep_undoes_completion :
    ∃ steps s, JobRun (JobSystem.enqueued noteJobs) steps s ∧
      ∃ x ∈ steps, ¬ StepSafe x.before x.action x.now x.after := by
  have hstart : JobRun (JobSystem.enqueued noteJobs) [] (JobSystem.enqueued noteJobs) := .start
  have run := ((hstart.step
    (.claim "mig-1" "worker-1" second 0) 0 (by decide)).step
    (.sweepRead "mig-1") (2 * second) (by decide)).step
    (.complete ⟨"job-1", "worker-1", 1⟩ .succeeded noteReport) (2 * second) (by decide) |>.step
    (.sweepWrite 0) (2 * second) (by decide)
  refine ⟨_, _, run, _, List.mem_append_right _ (List.mem_singleton.mpr rfl), fun h => ?_⟩
  obtain ⟨j', hj', hsafe⟩ := h "job-1" _ rfl
  cases hj'
  have hstate := hsafe.finished rfl
  cases hstate

end Openlia.Operator
