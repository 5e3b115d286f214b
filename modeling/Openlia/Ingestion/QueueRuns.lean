import Openlia.Ingestion.Queue

/-! # Interleaved workers on the queue

Any number of workers and requests take steps on one table. `claim` and the read of the row
that it returns are two statements, so a worker acts with a row that somebody has read.
-/

namespace Openlia.Ingestion

open Lib

/-- What the history keeps of a step. -/
inductive Event where
  | submitted (jobId : String)
  | claimed (jobId : String) (generation : Nat)
  | requeued (jobId : String) (attempts : Nat)
  deriving DecidableEq

def Event.jobId : Event → String
  | .submitted jobId => jobId
  | .claimed jobId _ => jobId
  | .requeued jobId _ => jobId

structure QueueSystem where
  jobs : JobTable
  /-- The rows that were read. -/
  reads : List Job
  /-- The last event comes first. -/
  log : List Event

/-- `read` is the position of a row that was read before. -/
inductive QueueAction where
  | submit (request : SubmitRequest) (newId : String)
  | claim (owner : String) (pick : Nat)
  | get (jobId : String)
  | heartbeat (jobId owner : String) (generation : Nat)
  | finish (read : Nat) (completed : Bool) (result : String)
  | fail (read : Nat) (code summary : String) (retryable : Bool)
  | blockForPassword (read : Nat) (code summary : String)
  | requeue (jobId : String) (passwordProfile : Option String)
  | recover
  | cancelSourceJobs (sourceId : String) (excludeVersionId : Option String)
  | deleteSource (sourceId : String)
  | deleteVersion (sourceId versionId : String)
  | cancelProcessing (sourceId reason : String)

namespace QueueSystem

def empty : QueueSystem := ⟨Table.empty, [], []⟩

/-- The step of one caller at a time; `new_id` never gives an id twice. -/
def step (s : QueueSystem) (a : QueueAction) (now : Timestamp) : QueueSystem :=
  match a with
  | .submit request newId =>
      if .submitted newId ∈ s.log then s
      else match submit s.jobs request newId now with
        | .error _ => s
        | .ok (job, jobs) =>
            if job.jobId = newId then { s with jobs, log := .submitted newId :: s.log } else s
  | .claim owner pick =>
      match Ingestion.claim s.jobs owner now pick with
      | (none, jobs) => { s with jobs }
      | (some job, jobs) =>
          { s with jobs, log := .claimed job.jobId job.leaseGeneration :: s.log }
  | .get jobId =>
      match s.jobs.get jobId with
      | none => s
      | some job => { s with reads := s.reads ++ [job] }
  | .heartbeat jobId owner generation =>
      { s with jobs := (Ingestion.heartbeat s.jobs jobId owner generation now).2 }
  | .finish read completed result =>
      match s.reads[read]? with
      | none => s
      | some job => { s with jobs := (Ingestion.finish s.jobs job completed result now).2 }
  | .fail read code summary retryable =>
      match s.reads[read]? with
      | none => s
      | some job => { s with jobs := (Ingestion.fail s.jobs job code summary retryable now).2 }
  | .blockForPassword read code summary =>
      match s.reads[read]? with
      | none => s
      | some job => { s with jobs := (Ingestion.blockForPassword s.jobs job code summary now).2 }
  | .requeue jobId passwordProfile =>
      match s.jobs.get jobId with
      | none => s
      | some job =>
          if job.requeueable then
            { s with
              jobs := requeueJob s.jobs jobId passwordProfile now
              log := .requeued jobId job.attempts :: s.log }
          else s
  | .recover => { s with jobs := reclaimLocked s.jobs now }
  | .cancelSourceJobs sourceId excludeVersionId =>
      { s with jobs := Ingestion.cancelSourceJobs s.jobs sourceId excludeVersionId }
  | .deleteSource sourceId => { s with jobs := deleteSourceJobs s.jobs sourceId }
  | .deleteVersion sourceId versionId =>
      { s with jobs := deleteVersionJobs s.jobs sourceId versionId }
  | .cancelProcessing sourceId reason =>
      { s with jobs := cancelJobs s.jobs sourceId reason now }

def run (s : QueueSystem) (steps : List (QueueAction × Timestamp)) : QueueSystem :=
  steps.foldl (fun s a => s.step a.1 a.2) s

end QueueSystem

/-- The claims of a job since it was last requeued. -/
def claimsSince (jobId : String) : List Event → Nat
  | [] => 0
  | .claimed id _ :: log => (if id = jobId then 1 else 0) + claimsSince jobId log
  | .requeued id _ :: log => if id = jobId then 0 else claimsSince jobId log
  | .submitted _ :: log => claimsSince jobId log

/-- A later claim of one job has a higher generation. -/
def Rising (later earlier : Event) : Prop :=
  ∀ id g g', later = .claimed id g → earlier = .claimed id g' → g' < g

/-- What the queue promises of a state. -/
structure Promised (s : QueueSystem) : Prop where
  bounded : ∀ jobId, claimsSince jobId s.log ≤ maxAttempts
  fresh : ∀ jobId attempts, .requeued jobId attempts ∈ s.log → attempts = 0
  generations : s.log.Pairwise Rising
  heartbeat : ∀ jobId owner generation now, (∀ j ∈ s.jobs.rows, j.jobId = jobId →
    generation < j.leaseGeneration ∨ j.leaseOwner ≠ some owner) →
      heartbeat s.jobs jobId owner generation now = (false, s.jobs)
  finish : ∀ job completed result now, (∀ j ∈ s.jobs.rows, j.jobId = job.jobId →
    job.leaseGeneration < j.leaseGeneration ∨ j.leaseOwner ≠ job.leaseOwner) →
      finish s.jobs job completed result now = (none, s.jobs)
  fail : ∀ job code summary retryable now, (∀ j ∈ s.jobs.rows, j.jobId = job.jobId →
    job.leaseGeneration < j.leaseGeneration ∨ j.leaseOwner ≠ job.leaseOwner) →
      fail s.jobs job code summary retryable now = (false, s.jobs)
  blockForPassword : ∀ job code summary now, (∀ j ∈ s.jobs.rows, j.jobId = job.jobId →
    job.leaseGeneration < j.leaseGeneration ∨ j.leaseOwner ≠ job.leaseOwner) →
      blockForPassword s.jobs job code summary now = (false, s.jobs)

/-- The step reclaims no job that has used its attempts, and requeues none that has used any. -/
def Meets (s : QueueSystem) (a : QueueAction) (now : Timestamp) : Prop :=
  match a with
  | .claim _ _ => ∀ j ∈ s.jobs.rows, j.expired now = true → j.attempts < maxAttempts
  | .recover => ∀ j ∈ s.jobs.rows, j.expired now = true → j.attempts < maxAttempts
  | .requeue jobId _ => ∀ j ∈ s.jobs.rows, j.jobId = jobId → j.requeueable = true → j.attempts = 0
  | _ => True

instance (s : QueueSystem) (a : QueueAction) (now : Timestamp) : Decidable (Meets s a now) := by
  cases a <;> unfold Meets <;> infer_instance

/-- Every step of a run meets the condition in the state it starts from. -/
def MeetsAll (s : QueueSystem) : List (QueueAction × Timestamp) → Prop
  | [] => True
  | a :: steps => Meets s a.1 a.2 ∧ MeetsAll (s.step a.1 a.2) steps

instance decidableMeetsAll (s : QueueSystem) (steps : List (QueueAction × Timestamp)) :
    Decidable (MeetsAll s steps) :=
  match steps with
  | [] => isTrue trivial
  | a :: steps =>
      have := decidableMeetsAll (s.step a.1 a.2) steps
      inferInstanceAs (Decidable (_ ∧ _))

/-! ## Fences -/

section Fences

variable {t : JobTable} {job : Job} {jobId : String} {owner : Option String} {generation : Nat}

/-- An older generation or another owner holds nothing. -/
theorem not_heldBy (h : ∀ j ∈ t.rows, j.jobId = jobId →
    generation < j.leaseGeneration ∨ j.leaseOwner ≠ owner) :
    ∀ j ∈ t.rows, ¬ j.heldBy jobId owner generation = true := by
  intro j hj hheld
  simp only [Job.heldBy, Bool.and_eq_true, decide_eq_true_eq] at hheld
  obtain ⟨⟨⟨⟨hid, -⟩, -⟩, howner⟩, hgeneration⟩ := hheld
  rcases h j hj hid with hold | hother
  · omega
  · exact hother howner

theorem heartbeat_stale {owner : String} {now : Timestamp} (h : ∀ j ∈ t.rows, j.jobId = jobId →
    generation < j.leaseGeneration ∨ j.leaseOwner ≠ some owner) :
    heartbeat t jobId owner generation now = (false, t) := by
  have hnone := not_heldBy h
  unfold heartbeat
  rw [Table.update_of_none hnone, Table.affected_eq_zero.mpr hnone]
  rfl

theorem finish_stale {completed : Bool} {result : String} {now : Timestamp}
    (h : ∀ j ∈ t.rows, j.jobId = job.jobId →
      job.leaseGeneration < j.leaseGeneration ∨ j.leaseOwner ≠ job.leaseOwner) :
    finish t job completed result now = (none, t) := by
  have hnone : ∀ j ∈ t.rows, ¬ job.fences j = true := not_heldBy h
  unfold finish
  rw [if_pos (Table.affected_eq_zero.mpr hnone)]

theorem fail_stale {code summary : String} {retryable : Bool} {now : Timestamp}
    (h : ∀ j ∈ t.rows, j.jobId = job.jobId →
      job.leaseGeneration < j.leaseGeneration ∨ j.leaseOwner ≠ job.leaseOwner) :
    fail t job code summary retryable now = (false, t) := by
  have hnone : ∀ j ∈ t.rows, ¬ job.fences j = true := not_heldBy h
  unfold fail
  rw [Table.update_of_none hnone, Table.affected_eq_zero.mpr hnone]
  rfl

theorem blockForPassword_stale {code summary : String} {now : Timestamp}
    (h : ∀ j ∈ t.rows, j.jobId = job.jobId →
      job.leaseGeneration < j.leaseGeneration ∨ j.leaseOwner ≠ job.leaseOwner) :
    blockForPassword t job code summary now = (false, t) := by
  have hnone : ∀ j ∈ t.rows, ¬ job.fences j = true := not_heldBy h
  unfold blockForPassword
  rw [Table.update_of_none hnone, Table.affected_eq_zero.mpr hnone]
  rfl

end Fences

/-! ## What a step keeps -/

/-- The count of attempts and the lease of a row, and why it may wait. -/
structure Kept (j j' : Job) : Prop where
  jobId : j'.jobId = j.jobId
  attempts : j'.attempts = j.attempts
  generation : j'.leaseGeneration = j.leaseGeneration
  waiting : j'.waiting = true → j.waiting = true ∨ j.attempts < maxAttempts

theorem Kept.refl (j : Job) : Kept j j := ⟨rfl, rfl, rfl, Or.inl⟩

structure QueueInv (s : QueueSystem) : Prop where
  submitted : ∀ e ∈ s.log, .submitted e.jobId ∈ s.log
  rows : ∀ j ∈ s.jobs.rows, .submitted j.jobId ∈ s.log
  reads : ∀ d ∈ s.reads, .submitted d.jobId ∈ s.log
  count : ∀ j ∈ s.jobs.rows, claimsSince j.jobId s.log ≤ j.attempts
  waiting : ∀ j ∈ s.jobs.rows, j.waiting = true → j.attempts < maxAttempts
  -- a row that was read has the attempts of its generation
  current : ∀ d ∈ s.reads, ∀ j ∈ s.jobs.rows, d.jobId = j.jobId →
    d.leaseGeneration ≤ j.leaseGeneration ∧
      (d.leaseGeneration = j.leaseGeneration → d.attempts = j.attempts)
  last : ∀ id g, .claimed id g ∈ s.log → ∀ j ∈ s.jobs.rows, j.jobId = id → g ≤ j.leaseGeneration
  bounded : ∀ jobId, claimsSince jobId s.log ≤ maxAttempts
  fresh : ∀ jobId attempts, .requeued jobId attempts ∈ s.log → attempts = 0
  generations : s.log.Pairwise Rising

theorem QueueInv.promised {s : QueueSystem} (h : QueueInv s) : Promised s where
  bounded := h.bounded
  fresh := h.fresh
  generations := h.generations
  heartbeat := fun _ _ _ _ => heartbeat_stale
  finish := fun _ _ _ _ => finish_stale
  fail := fun _ _ _ _ _ => fail_stale
  blockForPassword := fun _ _ _ _ => blockForPassword_stale

section Steps

variable {s : QueueSystem} {t' : JobTable}

/-- Rows that come from rows that they are kept by. -/
theorem QueueInv.withJobs (h : QueueInv s)
    (hrows : ∀ j' ∈ t'.rows, ∃ j ∈ s.jobs.rows, Kept j j') : QueueInv { s with jobs := t' } where
  submitted := h.submitted
  rows := by
    intro j' hj'
    obtain ⟨j, hj, hkept⟩ := hrows j' hj'
    rw [hkept.jobId]
    exact h.rows j hj
  reads := h.reads
  count := by
    intro j' hj'
    obtain ⟨j, hj, hkept⟩ := hrows j' hj'
    rw [hkept.jobId, hkept.attempts]
    exact h.count j hj
  waiting := by
    intro j' hj' hwaiting
    obtain ⟨j, hj, hkept⟩ := hrows j' hj'
    rw [hkept.attempts]
    exact (hkept.waiting hwaiting).elim (h.waiting j hj) id
  current := by
    intro d hd j' hj' hid
    obtain ⟨j, hj, hkept⟩ := hrows j' hj'
    rw [hkept.generation, hkept.attempts]
    exact h.current d hd j hj (hid.trans hkept.jobId)
  last := by
    intro id g hg j' hj' hid
    obtain ⟨j, hj, hkept⟩ := hrows j' hj'
    rw [hkept.generation]
    exact h.last id g hg j hj (hkept.jobId.symm.trans hid)
  bounded := h.bounded
  fresh := h.fresh
  generations := h.generations

theorem kept_update {t : JobTable} {p : Job → Bool} {f : Job → Job}
    (hf : ∀ j, (f j).jobId = j.jobId) (h : ∀ j ∈ t.rows, p j = true → Kept j (f j)) :
    ∀ j' ∈ (t.update p f hf).rows, ∃ j ∈ t.rows, Kept j j' := by
  intro j' hj'
  obtain ⟨j, hj, rfl⟩ := Table.mem_update.mp hj'
  by_cases hp : p j = true
  · rw [if_pos hp]
    exact ⟨j, hj, h j hj hp⟩
  · rw [if_neg hp]
    exact ⟨j, hj, Kept.refl j⟩

theorem kept_delete {t : JobTable} {p : Job → Bool} :
    ∀ j' ∈ (t.delete p).rows, ∃ j ∈ t.rows, Kept j j' :=
  fun j' hj' => ⟨j', (Table.mem_delete.mp hj').1, Kept.refl j'⟩

/-- A row that does not wait afterwards. -/
theorem kept_of_state {j j' : Job} (hid : j'.jobId = j.jobId) (hattempts : j'.attempts = j.attempts)
    (hgeneration : j'.leaseGeneration = j.leaseGeneration) (h : j'.waiting = false) : Kept j j' :=
  ⟨hid, hattempts, hgeneration, fun hw => by rw [h] at hw; cases hw⟩

theorem kept_reclaimed {t : JobTable} {now : Timestamp}
    (h : ∀ j ∈ t.rows, j.expired now = true → j.attempts < maxAttempts) :
    ∀ j' ∈ (reclaimLocked t now).rows, ∃ j ∈ t.rows, Kept j j' :=
  kept_update (fun j => j.reclaimed_jobId now) fun j hj hp =>
    ⟨rfl, rfl, rfl, fun _ => Or.inr (h j hj hp)⟩

/-- A worker that may still fail its job knows its attempts. -/
theorem kept_fail (h : QueueInv s) {job : Job} (hjob : job ∈ s.reads) {code summary : String}
    {retryable : Bool} {now : Timestamp} :
    ∀ j' ∈ (fail s.jobs job code summary retryable now).2.rows, ∃ j ∈ s.jobs.rows, Kept j j' := by
  refine kept_update (fun j => j.failedAs_jobId job code summary retryable now)
    fun j hj hfences => ⟨rfl, rfl, rfl, fun hwaiting => Or.inr ?_⟩
  simp only [Job.fences, Job.heldBy, Bool.and_eq_true, decide_eq_true_eq] at hfences
  obtain ⟨⟨⟨⟨hid, -⟩, -⟩, -⟩, hgeneration⟩ := hfences
  rw [← (h.current job hjob j hj hid.symm).2 hgeneration.symm]
  by_cases hretry : (retryable && decide (job.attempts < maxAttempts)) = true
  · rw [Bool.and_eq_true] at hretry
    exact of_decide_eq_true hretry.2
  · have hstate : (j.failedAs job code summary retryable now).state = .failed := if_neg hretry
    simp [Job.waiting, hstate] at hwaiting

theorem kept_finish {t : JobTable} {job : Job} {completed : Bool} {result : String}
    {now : Timestamp} :
    ∀ j' ∈ (finish t job completed result now).2.rows, ∃ j ∈ t.rows, Kept j j' := by
  unfold finish
  split
  · exact fun j hj => ⟨j, hj, Kept.refl j⟩
  · refine kept_update (fun j => j.finished_jobId completed result now) fun j _ _ =>
      kept_of_state rfl rfl rfl ?_
    cases completed <;> rfl

/-! ## Claims -/

theorem claimsSince_unknown {log : List Event} {jobId : String}
    (h : ∀ e ∈ log, e.jobId ≠ jobId) : claimsSince jobId log = 0 := by
  induction log with
  | nil => rfl
  | cons e log ih =>
      obtain ⟨he, hlog⟩ := List.forall_mem_cons.mp h
      have hrest := ih hlog
      cases e with
      | submitted id => exact hrest
      | claimed id g =>
          have hne : id ≠ jobId := he
          rw [claimsSince, if_neg hne, hrest]
      | requeued id a =>
          have hne : id ≠ jobId := he
          rw [claimsSince, if_neg hne, hrest]

/-- What a claim does: nothing to the count, or one waiting row more runs. -/
theorem claim_cases (t : JobTable) (owner : String) (now : Timestamp) (pick : Nat) :
    claim t owner now pick = (none, reclaimLocked t now) ∨
    ∃ j ∈ (reclaimLocked t now).rows, j.waiting = true ∧
      claim t owner now pick = (some (j.claimedBy owner (j.leaseGeneration + 1) now),
        (reclaimLocked t now).update (fun r => r.jobId = j.jobId && r.waiting)
          (fun r => r.claimedBy owner (j.leaseGeneration + 1) now)
          fun r => r.claimedBy_jobId owner (j.leaseGeneration + 1) now) := by
  unfold claim
  simp only
  split
  · exact Or.inl rfl
  · rename_i j hj
    refine Or.inr ⟨j, ?_, ?_, rfl⟩
    all_goals
      have hmem := List.mem_of_getElem? hj
      rw [dueJobs, List.mem_filter, Table.mem_select, Job.due, Bool.and_eq_true] at hmem
    · exact hmem.1.1
    · exact hmem.1.2.1

/-- The row that is claimed keeps the invariant with its new generation. -/
theorem QueueInv.claimed (h : QueueInv s) {j : Job} (hj : j ∈ s.jobs.rows)
    (hwaiting : j.waiting = true) (owner : String) (now : Timestamp) :
    QueueInv { s with
      jobs := s.jobs.update (fun r => r.jobId = j.jobId && r.waiting)
        (fun r => r.claimedBy owner (j.leaseGeneration + 1) now)
        fun r => r.claimedBy_jobId owner (j.leaseGeneration + 1) now
      log := .claimed j.jobId (j.leaseGeneration + 1) :: s.log } := by
  -- a row is the claimed one or another, which stays as it is
  have hrow : ∀ r' ∈ (s.jobs.update (fun r => r.jobId = j.jobId && r.waiting)
      (fun r => r.claimedBy owner (j.leaseGeneration + 1) now)
      fun r => r.claimedBy_jobId owner (j.leaseGeneration + 1) now).rows,
      r' = j.claimedBy owner (j.leaseGeneration + 1) now ∨
        r' ∈ s.jobs.rows ∧ r'.jobId ≠ j.jobId := by
    intro r' hr'
    obtain ⟨r, hr, rfl⟩ := Table.mem_update.mp hr'
    by_cases hid : r.jobId = j.jobId
    · obtain rfl : r = j := Table.eq_of_key_eq hr hj hid
      rw [if_pos (by simp [hwaiting])]
      exact Or.inl rfl
    · rw [if_neg (by simp [hid])]
      exact Or.inr ⟨hr, hid⟩
  have hless := h.waiting j hj hwaiting
  refine ⟨fun e he => ?_, fun r hr => ?_, fun d hd => List.mem_cons_of_mem _ (h.reads d hd),
    fun r hr => ?_, fun r hr hw => ?_, fun d hd r hr hid => ?_, fun id g hg r hr hid => ?_,
    fun id => ?_, fun id a ha => ?_, List.pairwise_cons.mpr ⟨fun e he => ?_, h.generations⟩⟩
  · rcases List.mem_cons.mp he with rfl | he
    · exact List.mem_cons_of_mem _ (h.rows j hj)
    · exact List.mem_cons_of_mem _ (h.submitted e he)
  · refine List.mem_cons_of_mem _ ?_
    rcases hrow r hr with rfl | ⟨hr, -⟩
    · exact h.rows j hj
    · exact h.rows r hr
  · rcases hrow r hr with rfl | ⟨hr, hne⟩
    · have hcount := h.count j hj
      rw [claimsSince, Job.claimedBy_jobId, if_pos rfl]
      change 1 + _ ≤ j.attempts + 1
      omega
    · rw [claimsSince, if_neg (Ne.symm hne), Nat.zero_add]
      exact h.count r hr
  · rcases hrow r hr with rfl | ⟨hr, -⟩
    · cases hw
    · exact h.waiting r hr hw
  · rcases hrow r hr with rfl | ⟨hr, -⟩
    · have hle := (h.current d hd j hj hid).1
      change d.leaseGeneration ≤ j.leaseGeneration + 1 ∧
        (d.leaseGeneration = j.leaseGeneration + 1 → _)
      exact ⟨by omega, fun heq => by omega⟩
    · exact h.current d hd r hr hid
  · rcases List.mem_cons.mp hg with heq | hg
    · cases heq
      rcases hrow r hr with rfl | ⟨-, hne⟩
      · exact Nat.le_refl _
      · exact absurd hid hne
    · rcases hrow r hr with rfl | ⟨hr, -⟩
      · exact Nat.le_succ_of_le (h.last id g hg j hj hid)
      · exact h.last id g hg r hr hid
  · have hbound := h.bounded id
    rw [claimsSince]
    by_cases hid : j.jobId = id
    · subst hid
      have hcount := h.count j hj
      rw [if_pos rfl]
      omega
    · rw [if_neg hid]
      omega
  · rcases List.mem_cons.mp ha with heq | ha
    · cases heq
    · exact h.fresh id a ha
  · intro id g g' hlater hearlier
    cases hlater
    subst hearlier
    exact Nat.lt_succ_of_le (h.last _ g' he j hj rfl)

theorem QueueInv.submit (h : QueueInv s) {request : SubmitRequest} {newId : String}
    {now : Timestamp} (hnew : .submitted newId ∉ s.log)
    (hinsert : s.jobs.insert (request.row newId now) = some t') :
    QueueInv { s with jobs := t', log := .submitted newId :: s.log } := by
  have hrow : ∀ r ∈ t'.rows, r ∈ s.jobs.rows ∨ r = request.row newId now :=
    fun r hr => (Table.mem_insert hinsert).mp hr
  have hunknown : claimsSince newId s.log = 0 :=
    claimsSince_unknown fun e he hid => hnew (hid ▸ h.submitted e he)
  refine ⟨fun e he => ?_, fun r hr => ?_, fun d hd => List.mem_cons_of_mem _ (h.reads d hd),
    fun r hr => ?_, fun r hr hw => ?_, fun d hd r hr hid => ?_, fun id g hg r hr hid => ?_,
    h.bounded, fun id a ha => ?_, List.pairwise_cons.mpr ⟨fun e he => ?_, h.generations⟩⟩
  · rcases List.mem_cons.mp he with rfl | he
    · exact List.mem_cons_self
    · exact List.mem_cons_of_mem _ (h.submitted e he)
  · rcases hrow r hr with hr | rfl
    · exact List.mem_cons_of_mem _ (h.rows r hr)
    · exact List.mem_cons_self
  · rcases hrow r hr with hr | rfl
    · exact h.count r hr
    · exact hunknown.le
  · rcases hrow r hr with hr | rfl
    · exact h.waiting r hr hw
    · exact Nat.zero_lt_succ 3
  · rcases hrow r hr with hr | rfl
    · exact h.current d hd r hr hid
    · have hid : d.jobId = newId := hid
      exact absurd (hid ▸ h.reads d hd) hnew
  · have hg := (List.mem_cons.mp hg).resolve_left nofun
    rcases hrow r hr with hr | rfl
    · exact h.last id g hg r hr hid
    · have hid : newId = id := hid
      exact absurd (hid ▸ h.submitted _ hg) hnew
  · exact h.fresh id a ((List.mem_cons.mp ha).resolve_left nofun)
  · intro id g g' hlater
    cases hlater

theorem QueueInv.requeue (h : QueueInv s) {jobId : String} {job : Job}
    (hget : s.jobs.get jobId = some job) (hzero : job.attempts = 0)
    {passwordProfile : Option String} {now : Timestamp} :
    QueueInv { s with
      jobs := requeueJob s.jobs jobId passwordProfile now
      log := .requeued jobId job.attempts :: s.log } := by
  have hjob := Table.mem_of_get hget
  have hid : job.jobId = jobId := Table.key_of_get hget
  have hkept : ∀ j' ∈ (requeueJob s.jobs jobId passwordProfile now).rows,
      ∃ j ∈ s.jobs.rows, Kept j j' := by
    refine kept_update (fun j => j.requeued_jobId passwordProfile now) fun j hj hp =>
      ⟨rfl, rfl, rfl, fun _ => Or.inr ?_⟩
    simp only [Bool.and_eq_true, decide_eq_true_eq] at hp
    obtain rfl : j = job := Table.eq_of_key_eq hj hjob (hp.1.trans hid.symm)
    rw [hzero]
    decide
  have hnext := h.withJobs hkept
  refine ⟨fun e he => ?_, fun r hr => List.mem_cons_of_mem _ (hnext.rows r hr),
    fun d hd => List.mem_cons_of_mem _ (h.reads d hd), fun r hr => ?_, hnext.waiting,
    hnext.current, fun id g hg => hnext.last id g ((List.mem_cons.mp hg).resolve_left nofun),
    fun id => ?_, fun id a ha => ?_, List.pairwise_cons.mpr ⟨fun e he => ?_, h.generations⟩⟩
  · rcases List.mem_cons.mp he with rfl | he
    · exact List.mem_cons_of_mem _ (hid ▸ h.rows job hjob)
    · exact List.mem_cons_of_mem _ (h.submitted e he)
  · rw [claimsSince]
    split
    · exact Nat.zero_le _
    · exact hnext.count r hr
  · rw [claimsSince]
    split
    · exact Nat.zero_le _
    · exact h.bounded id
  · rcases List.mem_cons.mp ha with heq | ha
    · cases heq
      exact hzero
    · exact h.fresh id a ha
  · intro id g g' hlater
    cases hlater

theorem QueueInv.get (h : QueueInv s) {job : Job} (hjob : job ∈ s.jobs.rows) :
    QueueInv { s with reads := s.reads ++ [job] } := by
  refine ⟨h.submitted, h.rows, fun d hd => ?_, h.count, h.waiting, fun d hd r hr hid => ?_, h.last,
    h.bounded, h.fresh, h.generations⟩
  · rcases List.mem_append.mp hd with hd | hd
    · exact h.reads d hd
    · rw [List.mem_singleton.mp hd]
      exact h.rows job hjob
  · rcases List.mem_append.mp hd with hd | hd
    · exact h.current d hd r hr hid
    · rw [List.mem_singleton] at hd
      subst hd
      obtain rfl : d = r := Table.eq_of_key_eq hjob hr hid
      exact ⟨Nat.le_refl _, fun _ => rfl⟩

theorem QueueInv.step (h : QueueInv s) (a : QueueAction) (now : Timestamp)
    (hmeets : Meets s a now) :
    QueueInv (s.step a now) := by
  cases a with
  | submit request newId =>
      unfold QueueSystem.step
      simp only
      split
      · exact h
      rename_i hnew
      unfold Ingestion.submit
      cases hkey : getByIdempotency s.jobs request.idempotencyKey with
      | some existing =>
          simp only
          have hmem : existing ∈ s.jobs.rows := List.mem_of_find?_eq_some hkey
          rw [if_neg]
          · exact h
          · rintro rfl
            exact hnew (h.rows existing hmem)
      | none =>
          simp only
          cases hinsert : s.jobs.insert (request.row newId now) with
          | none => exact h
          | some t' =>
              have hid : (request.row newId now).jobId = newId := rfl
              simp only
              rw [if_pos hid]
              exact h.submit hnew hinsert
  | claim owner pick =>
      have hnext := h.withJobs (kept_reclaimed hmeets)
      unfold QueueSystem.step
      simp only
      rcases claim_cases s.jobs owner now pick with hclaim | ⟨j, hj, hwaiting, hclaim⟩
      · rw [hclaim]
        exact hnext
      · rw [hclaim]
        exact hnext.claimed hj hwaiting owner now
  | get jobId =>
      unfold QueueSystem.step
      simp only
      split
      · exact h
      · rename_i job hget
        exact h.get (Table.mem_of_get hget)
  | heartbeat jobId owner generation =>
      exact h.withJobs (kept_update (fun j => j.extended_jobId now) fun j _ _ =>
        ⟨rfl, rfl, rfl, Or.inl⟩)
  | finish read completed result =>
      unfold QueueSystem.step
      simp only
      split
      · exact h
      · exact h.withJobs kept_finish
  | fail read code summary retryable =>
      unfold QueueSystem.step
      simp only
      split
      · exact h
      · rename_i job hjob
        exact h.withJobs (kept_fail h (List.mem_of_getElem? hjob))
  | blockForPassword read code summary =>
      unfold QueueSystem.step
      simp only
      split
      · exact h
      · exact h.withJobs (kept_update (fun j => j.blocked_jobId code summary now) fun j _ _ =>
          kept_of_state rfl rfl rfl rfl)
  | requeue jobId passwordProfile =>
      unfold QueueSystem.step
      simp only
      split
      · exact h
      · rename_i job hget
        split
        · rename_i hrequeueable
          exact h.requeue hget (hmeets job (Table.mem_of_get hget) (Table.key_of_get hget)
            hrequeueable)
        · exact h
  | recover => exact h.withJobs (kept_reclaimed hmeets)
  | cancelSourceJobs sourceId excludeVersionId => exact h.withJobs kept_delete
  | deleteSource sourceId => exact h.withJobs kept_delete
  | deleteVersion sourceId versionId => exact h.withJobs kept_delete
  | cancelProcessing sourceId reason =>
      exact h.withJobs (kept_update (fun j => j.cancelledFor_jobId reason now) fun j _ _ =>
        kept_of_state rfl rfl rfl rfl)

theorem queueInv_empty : QueueInv QueueSystem.empty := by
  refine ⟨?_, ?_, ?_, ?_, ?_, ?_, ?_, fun _ => Nat.zero_le _, ?_, List.Pairwise.nil⟩ <;>
    simp [QueueSystem.empty, Table.empty]

theorem QueueInv.run (h : QueueInv s) {steps : List (QueueAction × Timestamp)}
    (hmeets : MeetsAll s steps) : QueueInv (s.run steps) := by
  induction steps generalizing s with
  | nil => exact h
  | cons a steps ih => exact ih (h.step a.1 a.2 hmeets.1) hmeets.2

end Steps

def textRequest : SubmitRequest :=
  ⟨"key", "intake_1", "src_1", some "ver_001", "extract", ["text"], none, "\x7b\x7d"⟩

/-- A worker is lost and the next one finishes the job. -/
def lostWorker : List (QueueAction × Timestamp) :=
  [(.submit textRequest "job_1", 0), (.claim "a" 0, 0), (.claim "b" 0, 100), (.get "job_1", 100),
    (.finish 0 true "done", 101), (.heartbeat "job_1" "a" 1, 102)]

/-- Every worker of the job is lost. -/
def lostWorkers : List (QueueAction × Timestamp) :=
  [(.submit textRequest "job_1", 0), (.claim "a" 0, 0), (.claim "a" 0, 100), (.claim "a" 0, 200),
    (.claim "a" 0, 300), (.claim "a" 0, 400)]

/-- A job fails at its first attempt and is requeued. -/
def failedJob : List (QueueAction × Timestamp) :=
  [(.submit textRequest "job_1", 0), (.claim "a" 0, 0), (.get "job_1", 0),
    (.fail 0 "unsupported" "" false, 1), (.requeue "job_1" none, 2)]

end Openlia.Ingestion
