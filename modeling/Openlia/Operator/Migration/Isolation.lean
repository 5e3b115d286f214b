import Openlia.Operator.Migration.Supervisor

/-! # Jobs are isolated in the proposal repository

What a commit contains is what the runner of its job did, as long as every runner starts
on the tree of the newest commit. The supervisor restores that tree after a failure, but
not when it starts.
-/

namespace Openlia.Operator

open Lib

/-! ## What must hold -/

/-- The attempt of a job under a lease. -/
structure Attempt.Of (a : Attempt) (id : String) (leaseGen : Nat) : Prop where
  jobID : a.jobID = id
  leaseGen : a.leaseGen = leaseGen
  succeeded : a.succeeded = true

/-- The job that a commit is recorded for. -/
def CommitLabel.jobID : CommitLabel → Option String
  | .job id _ => some id
  | _ => none

structure Isolated (s : Supervision) : Prop where
  /-- A job has one attempt under a lease. -/
  attempts : (s.attempts.map fun a => (a.jobID, a.leaseGen)).Nodup
  /-- A commit changes what the successful attempt of its job changed, and nothing else. -/
  changes : ∀ newer c (older : WorkHistory), s.repo.history = newer ++ c :: older → ∀ id gen,
    c.label = .job id gen → ∃ a ∈ s.attempts, a.Of id gen ∧
      ∀ p, c.tree.lookup p ≠ older.headTree.lookup p →
        a.before.lookup p ≠ a.after.lookup p ∧ c.tree.lookup p = a.after.lookup p
  /-- A job has one commit, of the attempt that its row records. -/
  single : (s.repo.history.filterMap fun c => c.label.jobID).Nodup
  own : ∀ c ∈ s.repo.history, ∀ id gen, c.label = .job id gen → ∀ r, s.jobs.get id = some r →
    r.state.finished = true → r.leaseGeneration = gen
  /-- What the attempt of a succeeded job changed is in its commit. -/
  recorded : ∀ r ∈ s.jobs.rows, r.state = .succeeded →
    ∃ a ∈ s.attempts, a.Of r.id r.leaseGeneration ∧
      ∀ p, a.before.lookup p ≠ a.after.lookup p → ∃ newer c, ∃ older : WorkHistory,
        s.repo.history = newer ++ c :: older ∧ c.label = .job r.id r.leaseGeneration ∧
          older.headTree.lookup p = a.before.lookup p ∧ c.tree.lookup p = a.after.lookup p

/-- A completion is missing for the newest commit. -/
def Supervision.Unrecorded (s : Supervision) : Prop :=
  ∃ w j head res, s.worker = some w ∧ w.phase = .committed (.job j) head res ∧
    s.repo.history ≠ head

/-- The process dies on the tree of the newest commit and with its completion recorded,
completions do not fail after a commit, and git ignores no file that it is to stage or to
remove. -/
def Contained (ignored : WorkFiles → String → Bool) (x : Taken Supervision Move) : Prop :=
  match x.action with
  | .crash => x.before.repo.AtHead ∧ ¬ x.before.Unrecorded
  | .completeFails => ¬ x.before.Unrecorded
  | .stage => x.before.repo.Visible ignored
  | .cleanTree => x.before.repo.Visible ignored
  | _ => True

/-! ## What the job table keeps -/

/-- A row moves without a record of finished work. -/
structure RowKept (r r' : Job) : Prop where
  finished : r.state.finished = true → r' = r
  unfinished : r'.state.finished = true → r' = r
  generation : r.leaseGeneration ≤ r'.leaseGeneration
  owner : r'.leaseOwner ≠ none → r'.state = .running

/-- Rows move, and new ones are pending. -/
structure JobsKept (t t' : JobTable) : Prop where
  row : ∀ id r, t.get id = some r → ∃ r', t'.get id = some r' ∧ RowKept r r'
  back : ∀ r' ∈ t'.rows, (∃ r ∈ t.rows, r.id = r'.id ∧ RowKept r r') ∨
    (r'.state = .pending ∧ r'.leaseOwner = none)

section Kept

variable {t t' : JobTable} {r : Job}

/-- Only a running job has an owner. -/
def Owned (t : JobTable) : Prop := ∀ r ∈ t.rows, r.leaseOwner ≠ none → r.state = .running

theorem RowKept.refl (h : r.leaseOwner ≠ none → r.state = .running) : RowKept r r :=
  ⟨fun _ => rfl, fun _ => rfl, Nat.le_refl _, h⟩

theorem JobsKept.of_evolves (h : t.Evolves RowKept t') : JobsKept t t' := by
  refine ⟨fun id r hr => h.get hr, fun r' hr' => ?_⟩
  obtain ⟨r, hr, hid, hkept⟩ := h.of_mem hr'
  exact .inl ⟨r, hr, hid.symm, hkept⟩

theorem JobsKept.refl (h : Owned t) : JobsKept t t :=
  .of_evolves (Table.Evolves.refl fun r hr => RowKept.refl (h r hr))

/-- An update that touches unfinished rows and finishes none. -/
theorem JobsKept.update {p : Job → Bool} {f : Job → Job} (hf : ∀ r, (f r).id = r.id)
    (h : Owned t)
    (hp : ∀ r ∈ t.rows, p r = true → r.state.finished = false ∧ (f r).state.finished = false ∧
      r.leaseGeneration ≤ (f r).leaseGeneration ∧
      ((f r).leaseOwner ≠ none → (f r).state = .running)) :
    JobsKept t (t.update p f hf) := by
  refine .of_evolves (Table.Evolves.update hf (fun r hr hpr => ?_) fun r hr _ =>
    RowKept.refl (h r hr))
  obtain ⟨hfin, hfin', hgen, howner⟩ := hp r hr hpr
  refine ⟨fun hdone => ?_, fun hdone => ?_, hgen, howner⟩
  · rw [hfin] at hdone
    cases hdone
  · rw [hfin'] at hdone
    cases hdone

theorem JobsKept.owned (h : JobsKept t t') : Owned t' := by
  intro r' hr'
  rcases h.back r' hr' with ⟨r, hr, hid, hkept⟩ | ⟨-, hnone⟩
  · exact hkept.owner
  · exact fun hne => absurd hnone hne

theorem enqueueJobs_rows {now : Instant} {new : List NewJob}
    (henq : enqueueJobs t now new = some t') : t'.rows = t.rows ++ new.map fun j => j.row now := by
  induction new generalizing t with
  | nil =>
      cases henq
      simp
  | cons x rest ih =>
      unfold enqueueJobs at henq
      split at henq
      · cases henq
      · split at henq
        · cases henq
        · rename_i t₁ hins
          have hrows : t₁.rows = t.rows ++ [x.row now] := by
            unfold Table.insert at hins
            split at hins
            · cases hins
            · cases hins
              rfl
          rw [ih henq, hrows]
          simp

theorem enqueueJobs_kept {now : Instant} {new : List NewJob} (h : Owned t)
    (henq : enqueueJobs t now new = some t') : JobsKept t t' := by
  have hrows := enqueueJobs_rows henq
  refine ⟨fun id r hr => ?_, fun r' hr' => ?_⟩
  · have hmem : r ∈ t'.rows := by
      rw [hrows]
      exact List.mem_append_left _ (Table.mem_of_get hr)
    have hget := Table.get_of_mem hmem
    rw [Table.key_of_get hr] at hget
    exact ⟨r, hget, RowKept.refl (h r (Table.mem_of_get hr))⟩
  · rw [hrows] at hr'
    rcases List.mem_append.mp hr' with hr' | hr'
    · exact .inl ⟨r', hr', rfl, RowKept.refl (h r' hr')⟩
    · obtain ⟨x, -, rfl⟩ := List.mem_map.mp hr'
      exact .inr ⟨rfl, rfl⟩

/-- The job is leased to the worker. -/
structure Held (t : JobTable) (workerID : String) (j : Job) : Prop where
  worker : workerID ≠ ""
  leaseGen : 0 < j.leaseGeneration
  row : ∃ r, t.get j.id = some r ∧ r.leaseOwner = some workerID ∧
    r.leaseGeneration = j.leaseGeneration

variable {workerID migrationID : String} {j : Job} {now : Instant}

theorem Held.running (h : Held t workerID j) (howned : Owned t) :
    ∃ r, t.get j.id = some r ∧ r.state = .running ∧ r.leaseGeneration = j.leaseGeneration := by
  obtain ⟨r, hr, howner, hgen⟩ := h.row
  exact ⟨r, hr, howned r (Table.mem_of_get hr) (by simp [howner]), hgen⟩

theorem leasedTo_unfinished (h : Owned t) (hr : r ∈ t.rows) {jobID : String} {leaseGen : Nat}
    (hl : r.leasedTo jobID workerID leaseGen = true) : r.state = .running := by
  simp only [Job.leasedTo, decide_eq_true_eq] at hl
  exact h r hr (by simp [hl.2.1])

theorem resetFailedJobs_kept (h : Owned t) (migrationID : String) (now : Instant) :
    JobsKept t (resetFailedJobs t migrationID now) := by
  refine JobsKept.update _ h fun r hr hp => ?_
  simp only [Bool.and_eq_true, decide_eq_true_eq] at hp
  refine ⟨by rw [hp.2]; rfl, rfl, Nat.le_refl _, fun hne => ?_⟩
  have hrunning := h r hr hne
  rw [hp.2] at hrunning
  cases hrunning

theorem sweepWrite_kept (h : Owned t) {e : ExpiredJob}
    (he : ∀ r, t.get e.id = some r → r.state.finished = false) (now : Instant) :
    JobsKept t (sweepWrite t e now) := by
  refine JobsKept.update _ h fun r hr hp => ?_
  simp only [decide_eq_true_eq] at hp
  refine ⟨he r (hp ▸ Table.get_of_mem hr), ?_⟩
  unfold ExpiredJob.swept
  split
  · exact ⟨rfl, Nat.le_refl _, fun hne => absurd rfl hne⟩
  · exact ⟨rfl, Nat.le_refl _, fun hne => absurd rfl hne⟩

theorem heartbeatJob_kept (h : Owned t) (jobID : String) (leaseGen leaseTime : Nat) :
    JobsKept t (JobSystem.orUnchanged t (heartbeatJob t jobID workerID leaseGen leaseTime now)) := by
  unfold heartbeatJob
  dsimp only
  split
  · exact JobsKept.refl h
  · refine JobsKept.update (by intro r; rfl) h fun r hr hp => ?_
    simp only [Bool.and_eq_true, decide_eq_true_eq] at hp
    exact ⟨by rw [hp.2]; rfl, by rw [hp.2]; rfl, Nat.le_refl _, fun _ => hp.2⟩

theorem claimNextJob_kept (h : Owned t) {leaseTime pick : Nat}
    (hclaim : claimNextJob t migrationID workerID leaseTime now pick = some (j, t')) :
    JobsKept t t' := by
  obtain ⟨k, hk, hcl, rfl, rfl⟩ := claimNextJob_spec hclaim
  refine JobsKept.update _ h fun r hr hp => ?_
  simp only [decide_eq_true_eq] at hp
  obtain rfl : r = k := Table.eq_of_key_eq hr hk hp.1
  refine ⟨?_, rfl, Nat.le_succ _, fun _ => rfl⟩
  simp only [claimable, Bool.and_eq_true, Bool.or_eq_true, decide_eq_true_eq] at hcl
  rcases hcl.2 with hpend | ⟨⟨hrun, -⟩, -⟩
  · rw [hpend]; rfl
  · rw [hrun]; rfl

theorem completeFailed_kept (h : Owned t) (jobID : String) (leaseGen : Nat) (rep : JobReport)
    (hfence : workerID ≠ "" ∧ 0 < leaseGen) :
    JobsKept t (JobSystem.orUnchanged t
      (completeJob t jobID workerID leaseGen .failed rep now)) := by
  rcases completeJob_fenced t jobID .failed rep now hfence with ⟨e, he⟩ | he
  · rw [he]
    exact JobsKept.refl h
  · rw [he]
    refine JobsKept.update (by intro r; rfl) h fun r hr hp => ?_
    rw [leasedTo_unfinished h hr hp]
    exact ⟨rfl, rfl, Nat.le_refl _, fun hne => absurd rfl hne⟩

theorem failOrRetryWrite_kept (h : Owned t) (attempts maxAttempts : Nat) (jobID : String)
    (leaseGen : Nat) (summary errCode errMsg : String) (hfence : workerID ≠ "" ∧ 0 < leaseGen) :
    JobsKept t (JobSystem.orUnchanged t ((failOrRetryWrite t attempts maxAttempts jobID workerID
      leaseGen summary errCode errMsg now).map Prod.snd)) := by
  unfold failOrRetryWrite
  rw [if_pos hfence]
  split
  · split
    · exact JobsKept.refl h
    · refine JobsKept.update (by intro r; rfl) h fun r hr hp => ?_
      rw [leasedTo_unfinished h hr hp]
      exact ⟨rfl, rfl, Nat.le_refl _, fun hne => absurd rfl hne⟩
  · have hfailed := @completeFailed_kept t workerID now h jobID leaseGen
      ⟨summary, [], [], [], errCode, errMsg⟩ hfence
    split
    · exact JobsKept.refl h
    · rename_i t₁ hcomplete
      rw [hcomplete] at hfailed
      exact hfailed

/-! ## A lease is kept -/

theorem Held.enqueue (h : Held t workerID j) {new : List NewJob}
    (henq : enqueueJobs t now new = some t') : Held t' workerID j := by
  obtain ⟨r, hr, howner⟩ := h.row
  have hmem : r ∈ t'.rows := by
    rw [enqueueJobs_rows henq]
    exact List.mem_append_left _ (Table.mem_of_get hr)
  have hget := Table.get_of_mem hmem
  rw [Table.key_of_get hr] at hget
  exact ⟨h.worker, h.leaseGen, r, hget, howner⟩

theorem Held.update (h : Held t workerID j) {p : Job → Bool} {f : Job → Job}
    (hf : ∀ r, (f r).id = r.id)
    (hkeep : ∀ r, t.get j.id = some r → p r = true →
      (f r).leaseOwner = r.leaseOwner ∧ (f r).leaseGeneration = r.leaseGeneration) :
    Held (t.update p f hf) workerID j := by
  obtain ⟨r, hr, howner, hgen⟩ := h.row
  refine ⟨h.worker, h.leaseGen, if p r then f r else r, ?_, ?_⟩
  · rw [Table.get_update, hr]
    rfl
  · split
    · rename_i hp
      obtain ⟨ho, hg⟩ := hkeep r hr hp
      exact ⟨ho.trans howner, hg.trans hgen⟩
    · exact ⟨howner, hgen⟩

theorem Held.resetFailed (h : Held t workerID j) (migrationID : String) (now : Instant) :
    Held (resetFailedJobs t migrationID now) workerID j :=
  h.update _ fun _ _ _ => ⟨rfl, rfl⟩

theorem Held.heartbeat (h : Held t workerID j) (jobID owner : String) (leaseGen leaseTime : Nat)
    (now : Instant) :
    Held (JobSystem.orUnchanged t (heartbeatJob t jobID owner leaseGen leaseTime now))
      workerID j := by
  unfold heartbeatJob
  dsimp only
  split
  · exact h
  · exact h.update (by intro r; rfl) fun _ _ _ => ⟨rfl, rfl⟩

/-- A claim hands out a lease. -/
theorem Held.claim {leaseTime pick : Nat} (hworker : workerID ≠ "")
    (hclaim : claimNextJob t migrationID workerID leaseTime now pick = some (j, t')) :
    Held t' workerID j ∧ ∃ r, t.get j.id = some r ∧ r.leaseGeneration < j.leaseGeneration := by
  obtain ⟨k, hk, -, rfl, rfl⟩ := claimNextJob_spec hclaim
  have hget : t.get k.id = some k := Table.get_of_mem hk
  refine ⟨⟨hworker, Nat.succ_pos _, k.claimedBy k workerID leaseTime now, ?_, rfl, rfl⟩, k, hget,
    Nat.lt_succ_self _⟩
  rw [Table.get_update, Job.claimedBy_id, hget]
  simp

end Kept

/-! ## Attempts, commits and rows -/

/-- A commit holds what an attempt did. -/
def Committed (history : WorkHistory) (a : Attempt) : Prop :=
  Files.Same a.before a.after ∨ ∃ newer c, ∃ older : WorkHistory,
    history = newer ++ c :: older ∧ c.label = .job a.jobID a.leaseGen ∧
      Files.Same older.headTree a.before ∧ Files.Same c.tree a.after

/-- How the attempts, the commits and the rows agree; `unrecorded` is the commit whose
completion is missing. -/
structure Facts (jobs : JobTable) (attempts : List Attempt) (history : WorkHistory)
    (unrecorded : Option (String × Nat)) : Prop where
  owned : Owned jobs
  attemptRow : ∀ a ∈ attempts, ∃ r, jobs.get a.jobID = some r ∧ a.leaseGen ≤ r.leaseGeneration
  distinct : (attempts.map fun a => (a.jobID, a.leaseGen)).Nodup
  commits : ∀ newer c (older : WorkHistory), history = newer ++ c :: older → ∀ id gen,
    c.label = .job id gen → ∃ a ∈ attempts, a.Of id gen ∧
      Files.Same older.headTree a.before ∧ Files.Same c.tree a.after
  single : (history.filterMap fun c => c.label.jobID).Nodup
  commitRow : ∀ c ∈ history, ∀ id gen, c.label = .job id gen → unrecorded = some (id, gen) ∨
    ∃ r, jobs.get id = some r ∧ r.state.finished = true ∧ r.leaseGeneration = gen
  recorded : ∀ r ∈ jobs.rows, r.state.finished = true →
    ∃ a ∈ attempts, a.Of r.id r.leaseGeneration ∧ Committed history a

section Facts

variable {jobs jobs' : JobTable} {attempts : List Attempt} {history : WorkHistory}
  {unrecorded : Option (String × Nat)} {workerID : String} {j : Job}

theorem Facts.kept (h : Facts jobs attempts history unrecorded) (hjobs : JobsKept jobs jobs') :
    Facts jobs' attempts history unrecorded where
  owned := hjobs.owned
  attemptRow a ha := by
    obtain ⟨r, hr, hle⟩ := h.attemptRow a ha
    obtain ⟨r', hr', hkept⟩ := hjobs.row _ r hr
    exact ⟨r', hr', Nat.le_trans hle hkept.generation⟩
  distinct := h.distinct
  commits := h.commits
  single := h.single
  commitRow c hc id gen hlabel := by
    rcases h.commitRow c hc id gen hlabel with hun | ⟨r, hr, hfin, hgen⟩
    · exact .inl hun
    · obtain ⟨r', hr', hkept⟩ := hjobs.row _ r hr
      rw [hkept.finished hfin] at hr'
      exact .inr ⟨r, hr', hfin, hgen⟩
  recorded r' hr' hfin := by
    rcases hjobs.back r' hr' with ⟨r, hr, -, hkept⟩ | ⟨hpending, -⟩
    · obtain rfl := hkept.unfinished hfin
      exact h.recorded _ hr hfin
    · rw [hpending] at hfin
      cases hfin

/-- No attempt of the job under its lease has returned yet. -/
def NoAttempt (attempts : List Attempt) (j : Job) : Prop :=
  ∀ a ∈ attempts, a.jobID = j.id → a.leaseGen < j.leaseGeneration

theorem Facts.returned (h : Facts jobs attempts history unrecorded) (hheld : Held jobs workerID j)
    (hnew : NoAttempt attempts j) {a : Attempt} (hid : a.jobID = j.id)
    (hgen : a.leaseGen = j.leaseGeneration) :
    Facts jobs (attempts ++ [a]) history unrecorded where
  owned := h.owned
  attemptRow b hb := by
    rcases List.mem_append.mp hb with hb | hb
    · exact h.attemptRow b hb
    · obtain ⟨r, hr, -, hrow⟩ := hheld.row
      rw [List.mem_singleton.mp hb, hid, hgen]
      exact ⟨r, hr, Nat.le_of_eq hrow.symm⟩
  distinct := by
    rw [List.map_append, List.nodup_append]
    refine ⟨h.distinct, List.nodup_singleton _, fun x hx y hy hxy => ?_⟩
    obtain ⟨b, hb, rfl⟩ := List.mem_map.mp hx
    rw [List.map_singleton, List.mem_singleton] at hy
    rw [hy, hid, hgen, Prod.mk.injEq] at hxy
    exact absurd (hnew b hb hxy.1) (by omega)
  commits newer c older heq id gen hlabel := by
    obtain ⟨b, hb, hof⟩ := h.commits newer c older heq id gen hlabel
    exact ⟨b, List.mem_append_left _ hb, hof⟩
  single := h.single
  commitRow := h.commitRow
  recorded r hr hfin := by
    obtain ⟨b, hb, hof⟩ := h.recorded r hr hfin
    exact ⟨b, List.mem_append_left _ hb, hof⟩

theorem Committed.cons {a : Attempt} (h : Committed history a)
    (c : Lib.Commit String Bytes CommitLabel) : Committed (c :: history) a := by
  rcases h with hsame | ⟨newer, d, older, rfl, hd⟩
  · exact .inl hsame
  · exact .inr ⟨c :: newer, d, older, rfl, hd⟩

/-- A new commit, and the commits before it. -/
theorem cons_eq_append {c d : Lib.Commit String Bytes CommitLabel} {newer older : WorkHistory}
    (h : c :: history = newer ++ d :: older) :
    (newer = [] ∧ d = c ∧ older = history) ∨
      ∃ newer', newer = c :: newer' ∧ history = newer' ++ d :: older := by
  cases newer with
  | nil =>
      cases h
      exact .inl ⟨rfl, rfl, rfl⟩
  | cons x newer =>
      cases h
      exact .inr ⟨newer, rfl, rfl⟩

/-- The last attempt of the job, between two trees. -/
def LastAttempt (attempts : List Attempt) (j : Job) (before after : WorkFiles) : Prop :=
  ∃ a ∈ attempts, a.Of j.id j.leaseGeneration ∧ Files.Same before a.before ∧
    Files.Same after a.after

theorem Facts.commitJob (h : Facts jobs attempts history none) (hheld : Held jobs workerID j)
    {tree : WorkFiles} (hlast : LastAttempt attempts j history.headTree tree) :
    Facts jobs attempts (⟨.job j.id j.leaseGeneration, tree⟩ :: history)
      (some (j.id, j.leaseGeneration)) where
  owned := h.owned
  attemptRow := h.attemptRow
  distinct := h.distinct
  commits newer c older heq id gen hlabel := by
    rcases cons_eq_append heq with ⟨-, rfl, rfl⟩ | ⟨newer', -, heq⟩
    · cases hlabel
      exact hlast
    · exact h.commits newer' c older heq id gen hlabel
  single := by
    rw [List.filterMap_cons]
    refine List.nodup_cons.mpr ⟨fun hmem => ?_, h.single⟩
    obtain ⟨c, hc, hlabel⟩ := List.mem_filterMap.mp hmem
    obtain ⟨gen, hgen⟩ : ∃ gen, c.label = .job j.id gen := by
      cases hcase : c.label with
      | job id gen =>
          rw [hcase] at hlabel
          cases hlabel
          exact ⟨gen, rfl⟩
      | baseline => rw [hcase] at hlabel; cases hlabel
      | revision n => rw [hcase] at hlabel; cases hlabel
    -- an earlier commit of the job would have finished it
    obtain ⟨r, hr, hrunning, -⟩ := hheld.running h.owned
    rcases h.commitRow c hc j.id gen hgen with hun | ⟨r', hr', hfin, -⟩
    · cases hun
    · cases hr.symm.trans hr'
      rw [hrunning] at hfin
      cases hfin
  commitRow c hc id gen hlabel := by
    rcases List.mem_cons.mp hc with rfl | hc
    · cases hlabel
      exact .inl rfl
    · exact .inr ((h.commitRow c hc id gen hlabel).resolve_left nofun)
  recorded r hr hfin := by
    obtain ⟨a, ha, hof, hcommitted⟩ := h.recorded r hr hfin
    exact ⟨a, ha, hof, hcommitted.cons _⟩

theorem Facts.commitOther (h : Facts jobs attempts history none) {label : CommitLabel}
    (hlabel : label.jobID = none) (tree : WorkFiles) :
    Facts jobs attempts (⟨label, tree⟩ :: history) none where
  owned := h.owned
  attemptRow := h.attemptRow
  distinct := h.distinct
  commits newer c older heq id gen hjob := by
    rcases cons_eq_append heq with ⟨-, rfl, rfl⟩ | ⟨newer', -, heq⟩
    · obtain rfl : label = .job id gen := hjob
      cases hlabel
    · exact h.commits newer' c older heq id gen hjob
  single := by
    rw [List.filterMap_cons, hlabel]
    exact h.single
  commitRow c hc id gen hjob := by
    rcases List.mem_cons.mp hc with rfl | hc
    · obtain rfl : label = .job id gen := hjob
      cases hlabel
    · exact h.commitRow c hc id gen hjob
  recorded r hr hfin := by
    obtain ⟨a, ha, hof, hcommitted⟩ := h.recorded r hr hfin
    exact ⟨a, ha, hof, hcommitted.cons _⟩

/-- The holder of a lease is not refused. -/
theorem completeJob_held (hheld : Held jobs workerID j) (state : JobState) (rep : JobReport)
    (now : Instant) :
    completeJob jobs j.id workerID j.leaseGeneration state rep now =
      .ok (jobs.update (fun r => r.leasedTo j.id workerID j.leaseGeneration)
        (fun r => r.completedAs state rep now) fun _ => rfl) := by
  obtain ⟨r, hr, howner, hgen⟩ := hheld.row
  have haffected : ¬ jobs.affected (fun r => r.leasedTo j.id workerID j.leaseGeneration) = 0 := by
    rw [Table.affected_eq_zero]
    intro hnone
    refine hnone r (Table.mem_of_get hr) ?_
    simp only [Job.leasedTo, decide_eq_true_eq]
    exact ⟨Table.key_of_get hr, howner, hgen⟩
  unfold completeJob
  rw [if_pos ⟨hheld.worker, hheld.leaseGen⟩, if_neg haffected]

theorem Facts.complete (h : Facts jobs attempts history unrecorded) (hheld : Held jobs workerID j)
    (hun : unrecorded = none ∨ unrecorded = some (j.id, j.leaseGeneration)) {state : JobState}
    (hstate : state.finished = true) (rep : JobReport) (now : Instant)
    (hdone : ∃ a ∈ attempts, a.Of j.id j.leaseGeneration ∧ Committed history a) :
    Facts (JobSystem.orUnchanged jobs
      (completeJob jobs j.id workerID j.leaseGeneration state rep now)) attempts history none := by
  rw [completeJob_held hheld]
  show Facts (jobs.update (fun r => r.leasedTo j.id workerID j.leaseGeneration)
    (fun r => r.completedAs state rep now) fun _ => rfl) attempts history none
  -- only the held row changes
  have hrow : ∀ r ∈ jobs.rows, r.state.finished = true →
      r.leasedTo j.id workerID j.leaseGeneration = false := by
    intro r hr hfin
    by_contra hl
    rw [leasedTo_unfinished h.owned hr (by simpa using hl)] at hfin
    cases hfin
  refine ⟨fun r' hr' => ?_, fun a ha => ?_, h.distinct, h.commits, h.single,
    fun c hc id gen hlabel => .inr ?_, fun r' hr' hfin => ?_⟩
  · obtain ⟨r, hr, rfl⟩ := Table.mem_update.mp hr'
    split
    · exact fun hne => absurd rfl hne
    · exact h.owned r hr
  · obtain ⟨r, hr, hle⟩ := h.attemptRow a ha
    refine ⟨_, Table.get_update_of_get (by intro r; rfl) hr, ?_⟩
    split
    · exact hle
    · exact hle
  · have hheldRow : ∃ r, jobs.get j.id = some r ∧
        r.leasedTo j.id workerID j.leaseGeneration = true ∧
          r.leaseGeneration = j.leaseGeneration := by
      obtain ⟨r, hr, howner, hgen⟩ := hheld.row
      refine ⟨r, hr, ?_, hgen⟩
      simp only [Job.leasedTo, decide_eq_true_eq]
      exact ⟨Table.key_of_get hr, howner, hgen⟩
    rcases h.commitRow c hc id gen hlabel with hsome | ⟨r, hr, hfin, hgen⟩
    · rcases hun with hnone | hown
      · rw [hnone] at hsome
        cases hsome
      · rw [hown] at hsome
        cases hsome
        obtain ⟨r, hr, hl, hgen⟩ := hheldRow
        refine ⟨_, Table.get_update_of_get (by intro r; rfl) hr, ?_⟩
        rw [if_pos hl]
        exact ⟨hstate, hgen⟩
    · refine ⟨_, Table.get_update_of_get (by intro r; rfl) hr, ?_⟩
      rw [hrow r (Table.mem_of_get hr) hfin, if_neg (by simp)]
      exact ⟨hfin, hgen⟩
  · obtain ⟨r, hr, rfl⟩ := Table.mem_update.mp hr'
    split at hfin
    · rename_i hl
      rw [if_pos hl]
      simp only [Job.leasedTo, decide_eq_true_eq] at hl
      obtain ⟨a, ha, hof, hcommitted⟩ := hdone
      refine ⟨a, ha, ?_, hcommitted⟩
      have hid : (r.completedAs state rep now).id = j.id := hl.1
      have hgen : (r.completedAs state rep now).leaseGeneration = j.leaseGeneration := hl.2.2
      rw [hid, hgen]
      exact hof
    · rename_i hl
      rw [if_neg hl]
      exact h.recorded r hr hfin

theorem Facts.mono (h : Facts jobs attempts history none) :
    Facts jobs attempts history unrecorded where
  owned := h.owned
  attemptRow := h.attemptRow
  distinct := h.distinct
  commits := h.commits
  single := h.single
  commitRow c hc id gen hlabel := .inr ((h.commitRow c hc id gen hlabel).resolve_left nofun)
  recorded := h.recorded

/-- Every commit of the history is recorded when the unrecorded one was not made. -/
theorem Facts.settled (h : Facts jobs attempts history unrecorded)
    (hnone : ∀ c ∈ history, ∀ id gen, c.label = .job id gen → unrecorded ≠ some (id, gen)) :
    Facts jobs attempts history none where
  owned := h.owned
  attemptRow := h.attemptRow
  distinct := h.distinct
  commits := h.commits
  single := h.single
  commitRow c hc id gen hlabel :=
    .inr ((h.commitRow c hc id gen hlabel).resolve_left (hnone c hc id gen hlabel))
  recorded := h.recorded

end Facts

/-! ## The invariant -/

/-- The commit whose completion the phase still owes. -/
def Phase.unrecorded : Phase → Option (String × Nat)
  | .committed (.job j) _ _ => some (j.id, j.leaseGeneration)
  | _ => none

section Phases

variable (jobs : JobTable) (attempts : List Attempt) (repo : WorkRepo) (workerID : String)

def Task.Leased : Task → Prop
  | .job j => Held jobs workerID j
  | .revision _ => True

def Task.Unattempted : Task → Prop
  | .job j => NoAttempt attempts j
  | .revision _ => True

def Task.Attempted (before after : WorkFiles) : Task → Prop
  | .job j => LastAttempt attempts j before after
  | .revision _ => True

def Task.Done (history : WorkHistory) : Task → Prop
  | .job j => ∃ a ∈ attempts, a.Of j.id j.leaseGeneration ∧ Committed history a
  | .revision _ => True

/-- What holds in a phase of the process that has the lock. -/
def PhaseOk : Phase → Prop
  | .sweeping _ expired => repo.AtHead ∧
      ∀ e ∈ expired, ∀ r, jobs.get e.id = some r → r.state.finished = false
  | .idle => repo.AtHead
  | .claimed task head => repo.AtHead ∧ head = repo.history ∧ task.Leased jobs workerID ∧
      task.Unattempted attempts
  | .running task head before => head = repo.history ∧
      Files.Same repo.index repo.history.headTree ∧ Files.Same repo.history.headTree before ∧
        task.Leased jobs workerID ∧ task.Unattempted attempts
  | .returned task head (.ok _) => head = repo.history ∧
      Files.Same repo.index repo.history.headTree ∧ task.Leased jobs workerID ∧
        task.Attempted attempts repo.history.headTree repo.work
  | .returned task head (.error _) => head = repo.history ∧ task.Leased jobs workerID
  | .staged task head _ => head = repo.history ∧ Files.Same repo.index repo.work ∧
      task.Leased jobs workerID ∧ task.Attempted attempts repo.history.headTree repo.work
  | .committed task head _ => repo.AtHead ∧ task.Leased jobs workerID ∧
      task.Done attempts repo.history ∧
        (repo.history = head → ∀ j, task = .job j →
          ∀ c ∈ head, c.label ≠ .job j.id j.leaseGeneration)
  | .reset task _ => repo.Reset ∧ task.Leased jobs workerID
  | .cleaned task _ => repo.AtHead ∧ task.Leased jobs workerID
  | .failing j _ _ _ => repo.AtHead ∧ Held jobs workerID j

end Phases

/-- The attempts, commits and rows agree, and the process is where it believes to be. -/
structure SupervisionOk (s : Supervision) : Prop where
  facts : Facts s.jobs s.attempts s.repo.history (s.worker.bind fun w => w.phase.unrecorded)
  free : s.worker = none → s.repo.AtHead
  worker : ∀ w, s.worker = some w → w.workerID ≠ "" ∧
    PhaseOk s.jobs s.attempts s.repo w.workerID w.phase

section Moves

variable {jobs jobs' : JobTable} {attempts : List Attempt} {repo : WorkRepo}
  {workerID migrationID : String} {phase : Phase} {task : Task} {head : WorkHistory}
  {res : RequestResult} {failure : AttemptFailure} {before : WorkFiles}
  {ignored : WorkFiles → String → Bool} {s s' : Supervision} {m : Move}
  {leaseTime : Nat}

theorem SupervisionOk.inPhase (hfacts : Facts jobs attempts repo.history phase.unrecorded)
    (hname : workerID ≠ "") (hphase : PhaseOk jobs attempts repo workerID phase) :
    SupervisionOk ⟨jobs, repo, some ⟨workerID, phase⟩, attempts⟩ := by
  refine ⟨hfacts, nofun, fun w hw => ?_⟩
  cases hw
  exact ⟨hname, hphase⟩

theorem SupervisionOk.gone (hfacts : Facts jobs attempts repo.history none)
    (hhead : repo.AtHead) : SupervisionOk ⟨jobs, repo, none, attempts⟩ where
  facts := hfacts
  free _ := hhead
  worker w hw := absurd hw.symm (Option.some_ne_none w)

/-! ### The job table moves -/

theorem JobsKept.unfinished (h : JobsKept jobs jobs') {id : String}
    (hid : ∀ r, jobs.get id = some r → r.state.finished = false) {r' : Job}
    (hr' : jobs'.get id = some r') : r'.state.finished = false := by
  by_contra hfin
  rw [Bool.not_eq_false] at hfin
  rcases h.back r' (Table.mem_of_get hr') with ⟨r, hr, hkey, hkept⟩ | ⟨hpending, -⟩
  · obtain rfl := hkept.unfinished hfin
    have hget := Table.get_of_mem hr
    rw [hkey, Table.key_of_get hr'] at hget
    rw [hid _ hget] at hfin
    cases hfin
  · rw [hpending] at hfin
    cases hfin

theorem PhaseOk.kept (h : PhaseOk jobs attempts repo workerID phase) (hkept : JobsKept jobs jobs')
    (hheld : ∀ j, Held jobs workerID j → Held jobs' workerID j) :
    PhaseOk jobs' attempts repo workerID phase := by
  have hleased : ∀ task : Task, task.Leased jobs workerID → task.Leased jobs' workerID := by
    intro task htask
    cases task with
    | job j => exact hheld j htask
    | revision n => trivial
  cases phase with
  | sweeping readAt expired =>
      exact ⟨h.1, fun e he r hr => hkept.unfinished (h.2 e he) hr⟩
  | idle => exact h
  | claimed task head => exact ⟨h.1, h.2.1, hleased task h.2.2.1, h.2.2.2⟩
  | running task head before =>
      exact ⟨h.1, h.2.1, h.2.2.1, hleased task h.2.2.2.1, h.2.2.2.2⟩
  | returned task head res =>
      cases res with
      | ok res => exact ⟨h.1, h.2.1, hleased task h.2.2.1, h.2.2.2⟩
      | error e => exact ⟨h.1, hleased task h.2⟩
  | staged task head res => exact ⟨h.1, h.2.1, hleased task h.2.2.1, h.2.2.2⟩
  | committed task head res => exact ⟨h.1, hleased task h.2.1, h.2.2⟩
  | reset task e => exact ⟨h.1, hleased task h.2⟩
  | cleaned task e => exact ⟨h.1, hleased task h.2⟩
  | failing j e attempts maxAttempts => exact ⟨h.1, hheld j h.2⟩

/-- Another process changes the table, and the phase stays. -/
theorem SupervisionOk.kept (h : SupervisionOk s) (hkept : JobsKept s.jobs jobs')
    (hheld : ∀ w j, Held s.jobs w j → Held jobs' w j) : SupervisionOk { s with jobs := jobs' } :=
  ⟨h.facts.kept hkept, h.free, fun w hw =>
    ⟨(h.worker w hw).1, (h.worker w hw).2.kept hkept (hheld w.workerID)⟩⟩

theorem sweepRead_unfinished (now : Instant) :
    ∀ e ∈ sweepRead jobs migrationID now, ∀ r, jobs.get e.id = some r →
      r.state.finished = false := by
  intro e he r hr
  obtain ⟨j, hj, rfl⟩ := List.mem_map.mp he
  obtain ⟨hmem, hcond⟩ := Table.mem_select.mp hj
  simp only [Bool.and_eq_true, decide_eq_true_eq] at hcond
  cases hr.symm.trans (Table.get_of_mem hmem)
  rw [hcond.1.2]
  rfl

theorem claim_unattempted {now : Instant} {leaseTime pick : Nat} {j : Job}
    (hfacts : Facts jobs attempts repo.history none) (hname : workerID ≠ "")
    (hclaim : claimNextJob jobs migrationID workerID leaseTime now pick = some (j, jobs')) :
    NoAttempt attempts j := by
  obtain ⟨-, r, hr, hlt⟩ := Held.claim hname hclaim
  intro a ha hid
  obtain ⟨r', hr', hle⟩ := hfacts.attemptRow a ha
  rw [hid] at hr'
  cases hr.symm.trans hr'
  omega

/-! ### The runner -/

theorem runner_returned {after : WorkFiles} {succeeded : Bool}
    (hfacts : Facts jobs attempts repo.history none) (hleased : task.Leased jobs workerID)
    (hnew : task.Unattempted attempts) :
    Facts jobs (attempts ++ Supervision.endedAttempt task before after succeeded)
      repo.history none := by
  cases task with
  | job j => exact hfacts.returned hleased hnew rfl rfl
  | revision n => simpa [Supervision.endedAttempt] using hfacts

theorem runner_attempted (hbefore : Files.Same repo.history.headTree before) :
    task.Attempted (attempts ++ Supervision.endedAttempt task before repo.work true)
      repo.history.headTree repo.work := by
  cases task with
  | job j =>
      exact ⟨⟨j.id, j.leaseGeneration, before, repo.work, true⟩, by simp [Supervision.endedAttempt],
        ⟨rfl, rfl, rfl⟩, hbefore, fun _ => rfl⟩
  | revision n => trivial

/-! ### The checkpoint -/

/-- No commit names a job that is still leased. -/
theorem Facts.fresh_label {j : Job} (hfacts : Facts jobs attempts repo.history none)
    (hheld : Held jobs workerID j) (gen : Nat) :
    ∀ c ∈ repo.history, c.label ≠ .job j.id gen := by
  intro c hc hlabel
  obtain ⟨r, hr, hrunning, -⟩ := hheld.running hfacts.owned
  rcases hfacts.commitRow c hc _ _ hlabel with hun | ⟨r', hr', hfin, -⟩
  · cases hun
  · cases hr.symm.trans hr'
    rw [hrunning] at hfin
    cases hfin

theorem SupervisionOk.committed_made (hfacts : Facts jobs attempts repo.history none)
    (hname : workerID ≠ "")
    (hphase : PhaseOk jobs attempts repo workerID (.staged task head res)) :
    SupervisionOk ⟨jobs, repo.commit task.checkpoint,
      some ⟨workerID, .committed task head res⟩, attempts⟩ := by
  obtain ⟨rfl, hindex, hleased, hlast⟩ := hphase
  have hatHead : (repo.commit task.checkpoint).AtHead := ⟨fun _ => rfl, hindex.symm⟩
  have hne : (repo.commit task.checkpoint).history ≠ repo.history := List.cons_ne_self _ _
  cases task with
  | job j =>
      obtain ⟨a, ha, hof, hbefore, hafter⟩ := hlast
      refine SupervisionOk.inPhase
        (hfacts.commitJob hleased ⟨a, ha, hof, hbefore, hindex.trans hafter⟩) hname
        ⟨hatHead, hleased, ⟨a, ha, hof, .inr ⟨[], _, repo.history, rfl, ?_, hbefore,
          hindex.trans hafter⟩⟩, fun heq => absurd heq hne⟩
      rw [hof.jobID, hof.leaseGen]
      rfl
  | revision n =>
      exact SupervisionOk.inPhase (hfacts.commitOther rfl _) hname
        ⟨hatHead, trivial, trivial, fun heq => absurd heq hne⟩

theorem SupervisionOk.committed_empty (hfacts : Facts jobs attempts repo.history none)
    (hname : workerID ≠ "")
    (hphase : PhaseOk jobs attempts repo workerID (.staged task head res))
    (hempty : Files.Same repo.index repo.history.headTree) :
    SupervisionOk ⟨jobs, repo, some ⟨workerID, .committed task head res⟩, attempts⟩ := by
  obtain ⟨rfl, hindex, hleased, hlast⟩ := hphase
  have hatHead : repo.AtHead := ⟨hempty, hindex.symm.trans hempty⟩
  cases task with
  | job j =>
      obtain ⟨a, ha, hof, hbefore, hafter⟩ := hlast
      have hsame : Files.Same a.before a.after :=
        hbefore.symm.trans (hatHead.work.symm.trans hafter)
      refine SupervisionOk.inPhase ?_ hname ⟨hatHead, hleased, ⟨a, ha, hof, .inl hsame⟩,
        fun _ k hk => ?_⟩
      · exact hfacts.mono
      · cases hk
        exact hfacts.fresh_label hleased _
  | revision n =>
      exact SupervisionOk.inPhase hfacts hname ⟨hatHead, trivial, trivial, fun _ _ hk => nomatch hk⟩

/-- The commits are recorded when the process is not waiting to record one. -/
theorem SupervisionOk.settled (h : SupervisionOk s) (hun : ¬ s.Unrecorded) :
    Facts s.jobs s.attempts s.repo.history none := by
  have hfacts := h.facts
  cases hw : s.worker with
  | none =>
      rw [hw] at hfacts
      exact hfacts
  | some w =>
      rw [hw, Option.bind_some] at hfacts
      have hphase := (h.worker w hw).2
      cases hp : w.phase with
      | committed task head res =>
          rw [hp] at hfacts hphase
          cases task with
          | job j =>
              refine hfacts.settled fun c hc id gen hlabel heq => ?_
              cases heq
              have hhead : s.repo.history = head := by
                by_contra hne
                exact hun ⟨w, j, head, res, hw, hp, hne⟩
              exact hphase.2.2.2 hhead j rfl c (hhead ▸ hc) hlabel
          | revision n => exact hfacts
      | sweeping readAt expired => rw [hp] at hfacts; exact hfacts
      | idle => rw [hp] at hfacts; exact hfacts
      | claimed task head => rw [hp] at hfacts; exact hfacts
      | running task head before => rw [hp] at hfacts; exact hfacts
      | returned task head res => rw [hp] at hfacts; exact hfacts
      | staged task head res => rw [hp] at hfacts; exact hfacts
      | reset task e => rw [hp] at hfacts; exact hfacts
      | cleaned task e => rw [hp] at hfacts; exact hfacts
      | failing j e attempts maxAttempts => rw [hp] at hfacts; exact hfacts

/-- What the phase says does not depend on the length of the lease. -/
theorem SupervisionOk.heartbeat (hfacts : Facts jobs attempts repo.history phase.unrecorded)
    (hname : workerID ≠ "") (hphase : PhaseOk jobs attempts repo workerID phase) (jobID : String)
    (leaseGen leaseTime : Nat) (now : Instant) :
    SupervisionOk ⟨JobSystem.orUnchanged jobs
      (heartbeatJob jobs jobID workerID leaseGen leaseTime now), repo,
      some ⟨workerID, phase⟩, attempts⟩ := by
  have hkept : JobsKept jobs (JobSystem.orUnchanged jobs
      (heartbeatJob jobs jobID workerID leaseGen leaseTime now)) :=
    heartbeatJob_kept hfacts.owned jobID leaseGen leaseTime
  exact .inPhase (hfacts.kept hkept) hname
    (hphase.kept hkept fun j hj => hj.heartbeat jobID workerID leaseGen leaseTime now)

/-- What a job is completed with counts as finished. -/
theorem completion_finished (headBefore head : WorkHistory) (res : RequestResult) :
    (Supervision.completion headBefore head res).1.finished = true := by
  unfold Supervision.completion
  dsimp only
  generalize (if Files.changed headBefore.headTree head.headTree = [] then res.changedPaths
    else Files.changed headBefore.headTree head.headTree) = paths
  split <;> rfl

theorem SupervisionOk.workerNext
    (hfacts : Facts jobs attempts repo.history phase.unrecorded) (hname : workerID ≠ "")
    (hphase : PhaseOk jobs attempts repo workerID phase)
    (hnext : Supervision.workerNext migrationID leaseTime ignored
      ⟨jobs, repo, some ⟨workerID, phase⟩, attempts⟩ workerID m phase = some s')
    (hc : Contained ignored ⟨⟨jobs, repo, some ⟨workerID, phase⟩, attempts⟩, m, s'⟩) :
    SupervisionOk s' := by
  have howned : Owned jobs := hfacts.owned
  have hok : SupervisionOk ⟨jobs, repo, some ⟨workerID, phase⟩, attempts⟩ :=
    .inPhase hfacts hname hphase
  unfold Supervision.workerNext at hnext
  split at hnext
  -- the sweep
  · rename_i readAt e rest
    cases hnext
    have hkept := sweepWrite_kept howned (hphase.2 e (List.mem_cons_self ..)) readAt
    refine .inPhase (hfacts.kept hkept) hname ⟨hphase.1, fun x hx r hr => ?_⟩
    exact hkept.unfinished (hphase.2 x (List.mem_cons_of_mem _ hx)) hr
  · cases hnext
    exact .inPhase hfacts hname ⟨hphase.1, fun x hx => hphase.2 x (List.mem_cons_of_mem _ hx)⟩
  · cases hnext
    exact .inPhase hfacts hname hphase.1
  · cases hnext
    exact .inPhase hfacts hname ⟨hphase.1, rfl, trivial, trivial⟩
  · cases hnext
    exact .gone hfacts hphase.1
  -- between two jobs
  · cases hnext
    exact .gone hfacts hphase
  · split at hnext
    · cases hnext
      exact .gone hfacts hphase
    · rename_i j t hclaim
      cases hnext
      exact .inPhase (hfacts.kept (claimNextJob_kept howned hclaim)) hname
        ⟨hphase, rfl, (Held.claim hname hclaim).1, claim_unattempted hfacts hname hclaim⟩
  -- a claimed job
  · cases hnext
    have hheld := hphase.2.2.1
    exact .inPhase (hfacts.kept (completeFailed_kept howned _ _ _ ⟨hname, hheld.leaseGen⟩)) hname
      hphase.1
  · cases hnext
    exact .inPhase hfacts hname hphase.1
  · cases hnext
    exact .gone hfacts hphase.1
  · cases hnext
    exact .heartbeat hfacts hname hphase _ _ _ _
  -- the runner
  · cases hnext
    exact .heartbeat hfacts hname hphase _ _ _ _
  · cases hnext
    obtain ⟨hhead, heq, hleased, hnew⟩ := hphase
    exact .inPhase hfacts hname ⟨heq, hhead.index, hhead.work.symm, hleased, hnew⟩
  · cases hnext
    exact .inPhase hfacts hname hphase
  · cases hnext
    obtain ⟨heq, hindex, hbefore, hleased, hnew⟩ := hphase
    exact .inPhase (runner_returned hfacts hleased hnew) hname
      ⟨heq, hindex, hleased, runner_attempted hbefore⟩
  · cases hnext
    obtain ⟨heq, -, -, hleased, hnew⟩ := hphase
    exact .inPhase (runner_returned hfacts hleased hnew) hname ⟨heq, hleased⟩
  -- the checkpoint
  · cases hnext
    obtain ⟨heq, -, hleased, hlast⟩ := hphase
    exact .inPhase hfacts hname ⟨heq, Repo.addAll_same hc, hleased, hlast⟩
  · cases hnext
    exact .inPhase hfacts hname ⟨hphase.1, hphase.2.2.1⟩
  · cases hnext
    exact .inPhase hfacts hname ⟨hphase.1, hphase.2.2.1⟩
  · cases hnext
    by_cases hempty : repo.statusEmpty ignored = true
    · rw [if_pos hempty]
      exact .committed_empty hfacts hname hphase (Repo.statusEmpty_same hempty)
    · rw [if_neg hempty]
      exact .committed_made hfacts hname hphase
  -- the completion
  · cases hnext
    obtain ⟨hhead, hheld, hdone, -⟩ := hphase
    exact .inPhase (hfacts.complete hheld (.inr rfl) (completion_finished _ _ _) _ _ hdone) hname hhead
  · cases hnext
    exact .gone hfacts hphase.1
  · cases hnext
    exact .inPhase (hok.settled hc) hname hphase.1
  -- the reset
  · cases hnext
    obtain ⟨rfl, hleased⟩ := hphase
    exact .inPhase hfacts hname ⟨Repo.resetHard_reset _ _, hleased⟩
  · cases hnext
    exact .inPhase hfacts hname ⟨hphase.1.clean_atHead hc, hphase.2⟩
  -- the record of the failure
  · split at hnext
    · cases hnext
      exact .inPhase hfacts hname hphase.1
    · cases hnext
      exact .inPhase hfacts hname hphase
  · cases hnext
    exact .inPhase hfacts hname hphase.1
  · cases hnext
    exact .gone hfacts hphase.1
  · cases hnext
    exact .inPhase (hfacts.kept (failOrRetryWrite_kept howned _ _ _ _ _ _ _
      ⟨hname, hphase.2.leaseGen⟩)) hname hphase.1
  · cases hnext
    exact .inPhase hfacts hname hphase.1
  · cases hnext

/-- A step keeps the invariant when it is contained. -/
theorem SupervisionOk.next (h : SupervisionOk s)
    (hnext : s.next migrationID leaseTime ignored m = some s')
    (hc : Contained ignored ⟨s, m, s'⟩) : SupervisionOk s' := by
  have howned : Owned s.jobs := h.facts.owned
  unfold Supervision.next at hnext
  split at hnext
  · rename_i now new
    obtain ⟨t, henq, rfl⟩ := Option.map_eq_some_iff.mp hnext
    exact h.kept (enqueueJobs_kept howned henq) fun w j hj => hj.enqueue henq
  · cases hnext
    exact h.kept (resetFailedJobs_kept howned _ _) fun w j hj => hj.resetFailed _ _
  · rename_i workerID now
    split at hnext
    · cases hnext
    · rename_i hw
      split at hnext
      · cases hnext
      · rename_i hname
        cases hnext
        have hfacts := h.facts
        rw [hw] at hfacts
        exact .inPhase hfacts hname ⟨h.free hw, sweepRead_unfinished now⟩
  · cases hnext
    exact .gone (h.settled hc.2) hc.1
  · split at hnext
    · cases hnext
    · rename_i w hw
      obtain ⟨workerID, phase⟩ := w
      obtain ⟨jobs, repo, worker, attempts⟩ := s
      obtain rfl : worker = some ⟨workerID, phase⟩ := hw
      obtain ⟨hname, hphase⟩ := h.worker _ rfl
      exact .workerNext h.facts hname hphase hnext hc

end Moves

/-! ## What the invariant says -/

theorem Supervision.fresh_ok (ignored : WorkFiles → String → Bool) (live : WorkFiles)
    (hlive : ∀ p, live.lookup p ≠ none → ignored live p = false) :
    SupervisionOk (.fresh ignored live) := by
  refine .gone ⟨nofun, nofun, .nil, ?_, .nil, ?_, nofun⟩ ⟨fun _ => rfl, ?_⟩
  · intro newer c older heq id gen hlabel
    rcases cons_eq_append heq with ⟨-, rfl, -⟩ | ⟨newer', -, hnil⟩
    · cases hlabel
    · exact absurd hnil.symm (List.append_ne_nil_of_right_ne_nil _ (List.cons_ne_nil _ _))
  · intro c hc id gen hlabel
    obtain rfl := List.mem_singleton.mp hc
    cases hlabel
  · exact (Repo.addAll_same (r := ⟨[], [], live⟩) fun p hp _ => hlive p hp).symm

theorem SupervisionOk.isolated {s : Supervision} (h : SupervisionOk s) : Isolated s where
  attempts := h.facts.distinct
  changes newer c older heq id gen hlabel := by
    obtain ⟨a, ha, hof, hbefore, hafter⟩ := h.facts.commits newer c older heq id gen hlabel
    refine ⟨a, ha, hof, fun p hne => ?_⟩
    rw [hafter p, hbefore p] at hne
    exact ⟨Ne.symm hne, hafter p⟩
  single := h.facts.single
  own c hc id gen hlabel r hr hfin := by
    rcases h.facts.commitRow c hc id gen hlabel with hun | ⟨r', hr', -, hgen⟩
    · obtain ⟨w, hw, hphase⟩ := Option.bind_eq_some_iff.mp hun
      obtain ⟨-, hok⟩ := h.worker w hw
      -- the job whose completion is missing still runs
      unfold Phase.unrecorded at hphase
      split at hphase
      · rename_i j head res hp
        cases hphase
        rw [hp] at hok
        obtain ⟨r', hr', hrunning, -⟩ := Held.running hok.2.1 h.facts.owned
        cases hr.symm.trans hr'
        rw [hrunning] at hfin
        cases hfin
      · cases hphase
    · cases hr.symm.trans hr'
      exact hgen
  recorded r hr hstate := by
    obtain ⟨a, ha, hof, hcommitted⟩ := h.facts.recorded r hr (by rw [hstate]; rfl)
    refine ⟨a, ha, hof, fun p hne => ?_⟩
    rcases hcommitted with hsame | ⟨newer, c, older, heq, hlabel, hbefore, hafter⟩
    · exact absurd (hsame p) hne
    · rw [hof.jobID, hof.leaseGen] at hlabel
      exact ⟨newer, c, older, heq, hlabel, hbefore p, hafter p⟩

/-! ## Every run -/

/-- In every run that is contained, from a baseline that ignores nothing, the jobs are
isolated in every state. -/
theorem jobs_isolated (migrationID : String) (leaseTime : Nat)
    (ignored : WorkFiles → String → Bool) (live : WorkFiles)
    (hlive : ∀ p, live.lookup p ≠ none → ignored live p = false)
    {taken : List (Taken Supervision Move)} {s : Supervision}
    (hrun : Run (fun s m s' => s.next migrationID leaseTime ignored m = some s')
      (.fresh ignored live) taken s)
    (hc : ∀ x ∈ taken, Contained ignored x) :
    Isolated s ∧ ∀ x ∈ taken, Isolated x.before ∧ Isolated x.after := by
  obtain ⟨hlast, hall⟩ := hrun.invariant_of (Supervision.fresh_ok ignored live hlive)
    (fun s m s' h hnext hc => h.next hnext hc) hc
  exact ⟨hlast.isolated, fun x hx => ⟨(hall x hx).1.isolated, (hall x hx).2.isolated⟩⟩

section TwoJobs

def nothingIgnored : WorkFiles → String → Bool := fun _ _ => false

def importJob (id : String) : NewJob := ⟨id, "mig-1", id, id, 3⟩

def emptyReport : RequestResult := ⟨[], "", [], []⟩

/-- A job that is done by one worker. -/
theorem jobs_isolated_oneJob :
    ∃ taken s, Run (fun s m s' => s.next "mig-1" 60 nothingIgnored m = some s')
      (.fresh nothingIgnored []) taken s ∧ s.repo.history.length = 2 ∧ Isolated s := by
  obtain ⟨taken, s, hrun, hp⟩ := exists_run_of_trace
    (Supervision.next "mig-1" 60 nothingIgnored) (.fresh nothingIgnored [])
    [.enqueue 0 [importJob "a"], .start "w1" 1, .enterLoop, .claim 2 0, .runnerStarts,
      .runnerWrites [("a.md", [104])], .runnerReturns (.ok emptyReport), .stage, .commit,
      .complete 3]
    (fun r => decide (r.2.repo.history.length = 2) && r.1.all fun x =>
      match x.action with
      | .crash => false
      | .completeFails => false
      | _ => true)
    (by decide +kernel)
  obtain ⟨hlen, hactions⟩ := (Bool.and_eq_true _ _).mp hp
  refine ⟨taken, s, hrun, of_decide_eq_true hlen, ?_⟩
  refine (jobs_isolated "mig-1" 60 nothingIgnored [] (fun _ _ => rfl) hrun fun x hx => ?_).1
  have hx' := List.all_eq_true.mp hactions x hx
  unfold Contained
  split at hx'
  · cases hx'
  · cases hx'
  · split
    · contradiction
    · contradiction
    · exact fun _ _ _ => rfl
    · exact fun _ _ _ => rfl
    · trivial

/-- The file that a worker leaves when it dies is in the commit of the next job. -/
theorem leftover_committed :
    ∃ taken s, Run (fun s m s' => s.next "mig-1" 60 nothingIgnored m = some s')
      (.fresh nothingIgnored []) taken s ∧ ¬ Isolated s := by
  obtain ⟨taken, s, hrun, hp⟩ := exists_run_of_trace
    (Supervision.next "mig-1" 60 nothingIgnored) (.fresh nothingIgnored [])
    [.enqueue 0 [importJob "a"], .enqueue 1 [importJob "b"], .start "w1" 2, .enterLoop, .claim 3 0,
      .runnerStarts, .runnerWrites [("a.md", [104])], .crash, .start "w2" 4, .enterLoop,
      .claim 5 0, .runnerStarts, .runnerReturns (.ok emptyReport), .stage, .commit, .complete 6]
    (fun r => r.2.attempts.all (fun a => decide (Files.changed a.before a.after = [])) &&
      match r.2.repo.history with
      | [] => false
      | c :: older => decide (c.label = .job "b" 1) &&
          decide (c.tree.lookup "a.md" ≠ (History.headTree older).lookup "a.md"))
    (by decide +kernel)
  obtain ⟨hattempts, hcommit⟩ := (Bool.and_eq_true _ _).mp hp
  refine ⟨taken, s, hrun, fun h => ?_⟩
  split at hcommit
  · cases hcommit
  · rename_i c older hhistory
    obtain ⟨hlabel, hchanged⟩ := (Bool.and_eq_true _ _).mp hcommit
    obtain ⟨a, ha, -, hdiff⟩ := h.changes [] c older hhistory _ _ (of_decide_eq_true hlabel)
    have hsame := of_decide_eq_true (List.all_eq_true.mp hattempts a ha)
    exact (hdiff "a.md" (of_decide_eq_true hchanged)).1 (Files.changed_eq_nil.mp hsame "a.md")

end TwoJobs

end Openlia.Operator
