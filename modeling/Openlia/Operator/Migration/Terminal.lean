import Openlia.Operator.Migration.JobRuns
import Openlia.Operator.Migration.StopResume

/-! # Terminal migrations

No call leads out of `applied` or `discarded`. The jobs are another matter: a
resume and `retry-jobs` queue failed jobs again before any update of the state
is rejected, and a supervisor that is not stopped claims whatever is runnable.
-/

namespace Openlia.Operator

open Lib Crash

variable {migrationID : String}

/-- A job was not claimed, not queued again and not run. -/
structure JobAtRest (migrationID : String) (j j' : Job) : Prop where
  migration : j'.migrationID = j.migrationID
  generation : j.migrationID = migrationID → j'.leaseGeneration = j.leaseGeneration
  pending : j.migrationID = migrationID → j'.state = .pending → j.state = .pending
  running : j.migrationID = migrationID → j'.state = .running → j.state = .running

theorem JobAtRest.refl (j : Job) : JobAtRest migrationID j j :=
  ⟨rfl, fun _ => rfl, fun _ h => h, fun _ h => h⟩

theorem JobAtRest.trans {j j' j'' : Job} (h : JobAtRest migrationID j j')
    (h' : JobAtRest migrationID j' j'') : JobAtRest migrationID j j'' := by
  refine ⟨h'.migration.trans h.migration, fun hm => ?_, fun hm hs => ?_, fun hm hs => ?_⟩
  · have hm' := h.migration.trans hm
    exact (h'.generation hm').trans (h.generation hm)
  · exact h.pending hm (h'.pending (h.migration.trans hm) hs)
  · exact h.running hm (h'.running (h.migration.trans hm) hs)

/-! ## Calls that spare the jobs -/

namespace Store

variable (s : Store) (migrationID : String)

/-- No failed job that a reset would queue again. -/
def noneFailed : Bool :=
  s.jobs.rows.all fun j => !decide (j.migrationID = migrationID ∧ j.state = .failed)

/-- No job that a sweep at `now` would queue again. -/
def noneSwept (now : Instant) : Bool :=
  s.jobs.rows.all fun j => !(claimable migrationID now j && decide (j.state = .running))

/-- No job that a worker could claim at `now`. -/
def noneClaimable (now : Instant) : Bool :=
  s.jobs.rows.all fun j => !claimable migrationID now j

end Store

/-- A supervisor that starts in `w` touches no job: it does not get to its
sweep, or nothing is swept and it stops, goes to a revision or finds no job. -/
def WorkerEnv.spares (we : WorkerEnv) (migrationID : String) (w : World) : Bool :=
  we.repoError.isSome || we.lockError.isSome ||
    (w.store.noneSwept migrationID we.now &&
      ((w.store.migrations.get migrationID).any Migration.halted ||
        decide (w.store.submittedFeedback migrationID ≠ []) ||
        we.turns.head?.all fun turn => w.store.noneClaimable migrationID turn.claimAt))

/-- A call on a terminal migration that touches no job of it. -/
def Call.spares (migrationID : String) (w : World) : Call → Bool
  | .resume _ => w.store.noneFailed migrationID
  | .retryJobs _ => w.store.noneFailed migrationID
  | .supervisor we => we.spares migrationID w
  | _ => true

/-! ## The state is kept -/

/-- The migration is in the state `st`. -/
structure InState (migrationID : String) (st : MigrationState) (w : World) : Prop where
  inv : WorldInv migrationID w
  state : w.stateOf migrationID = some st

/-- The migration is in the state `st` and the job table is `t`. -/
structure Settled (migrationID : String) (st : MigrationState) (t : JobTable) (w : World) :
    Prop where
  inState : InState migrationID st w
  jobs : w.store.jobs = t

section

variable {st : MigrationState} {t : JobTable} (ht : st.terminal = true)
include ht

theorem InState.tryState {w : World} (h : InState migrationID st w) {state : MigrationState}
    {savedPhase : Option MigrationState}
    (hs : savedPhase = none ∨ (state = .stopped ∧ savedPhase = w.stateOf migrationID)) :
    InState migrationID st (w.tryState migrationID state savedPhase) := by
  refine ⟨h.inv.tryState hs, ?_⟩
  rw [World.stateOf_tryState h.state]
  split
  · rename_i hv
    rw [(isValidStateTransition_terminal ht).mp hv]
  · rfl

theorem inState_lifecycleStable : LifecycleStable migrationID (InState migrationID st) where
  intent w stop h := by
    refine ⟨WorldInv.lifecycleStable.intent w stop h.inv, ?_⟩
    rw [← h.state]
    simp [World.stateOf, Store.stateOf, Function.comp_def]
  state w state savedPhase h hs := h.tryState ht hs
  revision w rev s h hs := by
    refine ⟨WorldInv.lifecycleStable.revision w rev s h.inv hs, ?_⟩
    unfold Store.createRevision at hs
    split at hs
    · cases hs
    · cases hs
      rw [← h.state, World.stateOf, World.setStore_store, Store.stateOf, Store.mapMigration,
        Table.get_update]
      cases hm : w.store.migrations.get migrationID with
      | none => simp [World.stateOf, Store.stateOf, hm]
      | some m =>
          simp only [Option.map_some, World.stateOf, Store.stateOf, hm]
          split <;> rfl
  feedback w t' h := ⟨WorldInv.lifecycleStable.feedback w t' h.inv, h.state⟩

theorem inState_stable : Stable migrationID (InState migrationID st) where
  apart _ h := h.inv.apart
  live w t' h := ⟨WorldInv.stable.live w t' h.inv, h.state⟩
  saved w files dir h := ⟨WorldInv.stable.saved w files dir h.inv, h.state⟩
  state w state h := h.tryState ht (Or.inl rfl)
  journal w j h hj :=
    ⟨WorldInv.stable.journal w j h.inv hj, by rw [World.stateOf_putJournal, h.state]⟩

omit ht in
theorem inState_jobsStable : JobsStable (InState migrationID st) :=
  fun w t' h => ⟨WorldInv.jobsStable w t' h.inv, h.state⟩

/-- No event leads out of a terminal state. -/
theorem InState.event {c : Option Call} {w x : World} (h : InState migrationID st w)
    (he : Event migrationID c w x) : InState migrationID st x := by
  have hcall : ∀ c : Call, Preserves (InState migrationID st) (c.run migrationID) :=
    (inState_lifecycleStable ht).call inState_jobsStable (inState_stable ht)
  cases he with
  | done c => exact (hcall c).final h
  | crash c _ _ hx => exact (hcall c).trail h hx
  | edit _ t' => exact (inState_stable ht).live w t' h

/-! ## The jobs are kept -/

theorem settled_lifecycleStable :
    LifecycleStable migrationID (Settled migrationID st t) where
  intent w stop h := ⟨(inState_lifecycleStable ht).intent w stop h.inState, h.jobs⟩
  state w state savedPhase h hs := by
    obtain ⟨s, hs', hjobs⟩ := w.tryState_eq migrationID state savedPhase
    refine ⟨h.inState.tryState ht hs, ?_⟩
    rw [hs', World.setStore_store, hjobs, h.jobs]
  revision w rev s h hs := by
    refine ⟨(inState_lifecycleStable ht).revision w rev s h.inState hs, ?_⟩
    unfold Store.createRevision at hs
    split at hs
    · cases hs
    · cases hs
      exact h.jobs
  feedback w t' h := ⟨(inState_lifecycleStable ht).feedback w t' h.inState, h.jobs⟩

theorem settled_stable : Stable migrationID (Settled migrationID st t) where
  apart _ h := h.inState.inv.apart
  live w t' h := ⟨(inState_stable ht).live w t' h.inState, h.jobs⟩
  saved w files dir h := ⟨(inState_stable ht).saved w files dir h.inState, h.jobs⟩
  state w state h := (settled_lifecycleStable ht).state w state none h (Or.inl rfl)
  journal w j h hj :=
    ⟨(inState_stable ht).journal w j h.inState hj, by rw [World.putJournal_store, h.jobs]⟩

/-! ## The sweep and the supervisor -/

/-- A sweep leaves a job alone or fails it. -/
def Swept (j j' : Job) : Prop :=
  j' = j ∨ (j'.state = .failed ∧ j'.migrationID = j.migrationID ∧
    j'.leaseGeneration = j.leaseGeneration)

omit ht in
theorem Swept.trans {j j' j'' : Job} (h : Swept j j') (h' : Swept j' j'') : Swept j j'' := by
  rcases h' with rfl | ⟨hs, hm, hg⟩
  · exact h
  · rcases h with rfl | ⟨-, hm', hg'⟩
    · exact Or.inr ⟨hs, hm, hg⟩
    · exact Or.inr ⟨hs, hm.trans hm', hg.trans hg'⟩

omit ht in
theorem Swept.atRest {j j' : Job} (h : Swept j j') : JobAtRest migrationID j j' := by
  rcases h with rfl | ⟨hs, hm, hg⟩
  · exact JobAtRest.refl _
  · refine ⟨hm, fun _ => hg, fun _ hp => ?_, fun _ hr => ?_⟩
    · rw [hs] at hp
      cases hp
    · rw [hs] at hr
      cases hr

omit ht in
theorem Swept.not_claimable {j j' : Job} (h : Swept j j') {now : Instant}
    (hc : claimable migrationID now j = false) : claimable migrationID now j' = false := by
  rcases h with rfl | ⟨hs, -⟩
  · exact hc
  · simp [claimable, hs]

omit ht in
/-- Rows whose attempts are used up are failed one by one. -/
theorem sweepRows_run (now : Instant) {rows : List ExpiredJob}
    (hrows : ∀ e ∈ rows, e.maxAttempts ≤ e.attempts) (w : World) :
    ∃ t', ((sweepRows now rows).run w).final = w.setStore (w.store.setJobs t') ∧
      w.store.jobs.Evolves Swept t' ∧
      ∀ x ∈ ((sweepRows now rows).run w).trail, ∃ t'', x = w.setStore (w.store.setJobs t'') ∧
        w.store.jobs.Evolves Swept t'' := by
  induction rows generalizing w with
  | nil => exact ⟨w.store.jobs, rfl, Table.Evolves.refl fun _ _ => Or.inl rfl, by simp [sweepRows]⟩
  | cons e rest ih =>
      have hstep : w.store.jobs.Evolves Swept (sweepWrite w.store.jobs e now) := by
        refine Table.Evolves.update (e.swept_id now) (fun r _ _ => Or.inr ?_)
          fun r _ _ => Or.inl rfl
        simp [ExpiredJob.swept, hrows e List.mem_cons_self, Job.sweptFailed]
      obtain ⟨t', hfin, hev, htr⟩ := ih (fun e' he => hrows e' (List.mem_cons_of_mem e he))
        (w.setStore (w.store.setJobs (sweepWrite w.store.jobs e now)))
      simp only [sweepRows, Prog.run_write_bind]
      refine ⟨t', hfin, hstep.trans hev fun _ _ _ => Swept.trans, fun x hx => ?_⟩
      rcases List.mem_cons.mp hx with rfl | hx
      · exact ⟨_, rfl, hstep⟩
      · obtain ⟨t'', rfl, hev'⟩ := htr x hx
        exact ⟨t'', rfl, hstep.trans hev' fun _ _ _ => Swept.trans⟩

/-- The state is kept and the jobs of `t` are at rest. -/
def Quiet (migrationID : String) (st : MigrationState) (t : JobTable) (x : World) : Prop :=
  ∃ t', t.Evolves (JobAtRest migrationID) t' ∧ Settled migrationID st t' x

omit ht in
theorem Settled.quiet {w : World} (h : Settled migrationID st t w) : Quiet migrationID st t w :=
  ⟨t, Table.Evolves.refl fun j _ => JobAtRest.refl j, h⟩

omit ht in
/-- A program that keeps the state and the jobs keeps them at rest. -/
theorem quiet_of_settled {α : Type} {p : Action α} {t' : JobTable} {w : World}
    (hp : Spec (· = w) p (Settled migrationID st t') fun _ => Settled migrationID st t')
    (hev : t.Evolves (JobAtRest migrationID) t') :
    (∀ x ∈ (p.run w).trail, Quiet migrationID st t x) ∧ Quiet migrationID st t (p.run w).final :=
  ⟨fun x hx => ⟨t', hev, (hp w rfl).1 x hx⟩, t', hev, (hp w rfl).2⟩

/-- After a sweep that kept every runnable job as it was, the worker stops,
revises or finds no job. -/
theorem runUntilIdle_rest_quiet (we : WorkerEnv) {y : World} {m : Migration}
    (hy : Settled migrationID st t y) (hm : y.store.migrations.get migrationID = some m)
    (hidle : m.halted = true ∨ y.store.submittedFeedback migrationID ≠ [] ∨
      ∀ turn, we.turns.head? = some turn →
        ∀ j ∈ y.store.jobs.rows, claimable migrationID turn.claimAt j = false) :
    Spec (· = y)
      (if m.halted then
        Prog.ignore (updateMigrationState migrationID .stopped (some m.state))
      else if m.state = .revising ∨ y.store.submittedFeedback migrationID ≠ [] then
        processRevision we migrationID
      else runTurns we migrationID we.turns)
      (Settled migrationID st t) fun _ => Settled migrationID st t := by
  have hL : LifecycleStable migrationID (Settled migrationID st t) := settled_lifecycleStable ht
  have hstate : y.stateOf migrationID = some m.state := by simp [World.stateOf, Store.stateOf, hm]
  have hfrom : ∀ p : Action Unit, Preserves (Settled migrationID st t) p →
      Spec (· = y) p (Settled migrationID st t) fun _ => Settled migrationID st t :=
    fun p hp => hp.conseq (fun _ he => he ▸ hy) (fun _ h => h) fun _ _ h => h
  refine Spec.ite (fun _ => (hL.saveStopped hstate hy).ignore) fun hh => ?_
  refine Spec.ite (fun _ => hfrom _ (hL.processRevision we)) fun hf => ?_
  push Not at hf
  cases hturns : we.turns with
  | nil => exact hfrom _ (Preserves.fail _)
  | cons turn rest =>
      have hnone : ∀ j ∈ y.store.jobs.rows, claimable migrationID turn.claimAt j = false := by
        rcases hidle with h | h | h
        · exact absurd h hh
        · exact absurd hf.2 h
        · exact h turn (by rw [hturns]; rfl)
      have hturn : (runTurn we migrationID turn).run y = ⟨[], y, .ok .idle⟩ := by
        have hfilter : (some m).filter Migration.halted = none := by simpa using hh
        simp [runTurn, hm, hfilter, claimNextJob_eq_none.mpr hnone]
      rintro s rfl
      rw [runTurns, Prog.run_bind_ok (by rw [hturn]), hturn]
      exact hL.publishRevisionIfDone we s hy

theorem supervisor_quiet {we : WorkerEnv} {w : World} (hw : Settled migrationID st t w)
    (hs : we.spares migrationID w = true) :
    (∀ x ∈ ((runMigrationSupervisor we migrationID).run w).trail, Quiet migrationID st t x) ∧
      Quiet migrationID st t ((runMigrationSupervisor we migrationID).run w).final := by
  have hprocessing : isValidStateTransition st .processing = false := by
    cases st <;> simp [MigrationState.terminal] at ht <;> rfl
  obtain ⟨e, hrej⟩ := updateMigrationState_rejected none hw.inState.state hprocessing
  obtain ⟨m, hm, -⟩ : ∃ m, w.store.migrations.get migrationID = some m ∧ m.state = st := by
    simpa [World.stateOf, Store.stateOf] using hw.inState.state
  simp only [runMigrationSupervisor, Prog.run_get_bind, hm]
  cases hrepo : we.repoError with
  | some e => exact ⟨by simp, hw.quiet⟩
  | none =>
      simp only [Prog.run_ignore_bind, hrej, List.nil_append]
      unfold runUntilIdle
      cases hlock : we.lockError with
      | some e => exact ⟨by simp, hw.quiet⟩
      | none =>
          simp only [WorkerEnv.spares, hrepo, hlock, Option.isSome_none, Bool.false_or,
            Bool.and_eq_true] at hs
          obtain ⟨hswept, hidle⟩ := hs
          have hrows : ∀ e ∈ sweepRead w.store.jobs migrationID we.now,
              e.maxAttempts ≤ e.attempts := by
            intro e he
            obtain ⟨j, hj, rfl⟩ := List.mem_map.mp he
            obtain ⟨hmem, hcond⟩ := Table.mem_select.mp hj
            have hnot := List.all_eq_true.mp hswept j hmem
            simp only [Bool.and_eq_true, decide_eq_true_eq] at hcond
            simpa [claimable, hcond.1.1, hcond.1.2, hcond.2] using hnot
          obtain ⟨t', hfin, hev, htr⟩ := sweepRows_run we.now hrows w
          have hquiet : ∀ t'', w.store.jobs.Evolves Swept t'' →
              Settled migrationID st t'' (w.setStore (w.store.setJobs t'')) ∧
                t.Evolves (JobAtRest migrationID) t'' := by
            intro t'' h
            refine ⟨⟨inState_jobsStable w t'' hw.inState, rfl⟩, ?_⟩
            rw [← hw.jobs]
            exact h.imp fun _ _ _ => Swept.atRest
          obtain ⟨hy, hrest⟩ := hquiet t' hev
          simp only [sweepExpiredJobs, Prog.run_ignore_bind, Prog.run_get_bind, hfin]
          have hm' : (w.setStore (w.store.setJobs t')).store.migrations.get migrationID = some m :=
            hm
          have hloop := quiet_of_settled (runUntilIdle_rest_quiet ht we hy hm' ?_) hrest
          · simp only [hm']
            refine ⟨fun x hx => ?_, hloop.2⟩
            rcases List.mem_append.mp hx with hx | hx
            · obtain ⟨t'', rfl, h⟩ := htr x hx
              exact ⟨t'', (hquiet t'' h).2, (hquiet t'' h).1⟩
            · exact hloop.1 x hx
          · simp only [hm, Option.any_some, Bool.or_eq_true, decide_eq_true_eq] at hidle
            rcases hidle with (h | h) | h
            · exact Or.inl h
            · exact Or.inr (Or.inl h)
            · refine Or.inr (Or.inr fun turn hturn j hj => ?_)
              rw [hturn, Option.all_some] at h
              obtain ⟨r, hr, -, hsw⟩ := hev.of_mem hj
              exact hsw.not_claimable (by simpa using List.all_eq_true.mp h r hr)

/-! ## Every call -/

omit ht in
theorem resetFailedJobs_eq (hn : ∀ j ∈ t.rows, ¬ (j.migrationID = migrationID ∧ j.state = .failed))
    (now : Instant) : resetFailedJobs t migrationID now = t :=
  Table.update_of_none fun j hj => by simpa using hn j hj

omit ht in
/-- With no failed job a reset changes nothing. -/
theorem resetJobs_keeps (hn : ∀ j ∈ t.rows, ¬ (j.migrationID = migrationID ∧ j.state = .failed))
    (now : Instant) : Preserves (Settled migrationID st t)
      (jobStatement fun t => .ok (resetFailedJobs t migrationID now)) := by
  intro w hw
  have hreset : Settled migrationID st t
      (w.setStore (w.store.setJobs (resetFailedJobs w.store.jobs migrationID now))) := by
    rw [hw.jobs, resetFailedJobs_eq hn]
    exact ⟨inState_jobsStable w t hw.inState, rfl⟩
  exact ⟨fun x hx => List.mem_singleton.mp hx ▸ hreset, hreset⟩

/-- A resume asks for a phase that is not terminal, so it fails. -/
theorem resumePhase_fails {w : World} (hw : InState migrationID st w) (now : Instant) :
    ∃ e, ((resumePhase migrationID now).run w).result = .error e := by
  obtain ⟨m, hm, hmst⟩ : ∃ m, w.store.migrations.get migrationID = some m ∧ m.state = st := by
    simpa [World.stateOf, Store.stateOf] using hw.state
  have htarget : m.resumeTarget.terminal = false := by
    unfold Migration.resumeTarget
    split
    · rfl
    · cases hp : m.savedPhase with
      | none => rfl
      | some p => exact hw.inv.saved m hm p hp
  have hrun := resumePhase_run hm now
  rwa [if_neg] at hrun
  rw [hmst, isValidStateTransition_terminal ht]
  rintro rfl
  rw [ht] at htarget
  cases htarget

theorem call_quiet {c : Call} {w : World} (hw : Settled migrationID st t w)
    (hs : c.spares migrationID w = true) :
    (∀ x ∈ ((c.run migrationID).run w).trail, Quiet migrationID st t x) ∧
      Quiet migrationID st t ((c.run migrationID).run w).final := by
  have hL : LifecycleStable migrationID (Settled migrationID st t) := settled_lifecycleStable ht
  have hA : Stable migrationID (Settled migrationID st t) := settled_stable ht
  have hquiet : ∀ p : Action Unit, Preserves (Settled migrationID st t) p →
      (∀ x ∈ (p.run w).trail, Quiet migrationID st t x) ∧
        Quiet migrationID st t (p.run w).final :=
    fun p hp => ⟨fun x hx => (hp.trail hw hx).quiet, (hp.final hw).quiet⟩
  have hfailed : w.store.noneFailed migrationID = true →
      ∀ j ∈ t.rows, ¬ (j.migrationID = migrationID ∧ j.state = .failed) := by
    intro h j hj hb
    rw [← hw.jobs] at hj
    have hn := List.all_eq_true.mp h j hj
    simp [hb] at hn
  cases c with
  | apply env revisionID expectedPatchHash => exact hquiet _ (hA.applyRevision _ _)
  | recover env action =>
      exact hquiet _ (Preserves.bind (hA.recoverMigration action) fun _ => Preserves.pure ())
  | stop => exact hquiet _ hL.stopMigration
  | discard => exact hquiet _ hL.discardMigration
  | feedback input => exact hquiet _ (hL.addFeedback input)
  | retryJobs now =>
      exact hquiet _ (Preserves.bind (resetJobs_keeps (hfailed hs) now) fun _ =>
        (hL.updateMigrationState _).ignore)
  | supervisor we => exact supervisor_quiet ht hw hs
  | resume we =>
      obtain ⟨e, he⟩ := resumePhase_fails ht hw.inState we.now
      simp only [Call.run, resumeMigration, Prog.run_bind_error he]
      refine hquiet _ (Preserves.bind Preserves.get fun x => ?_)
      cases x.store.migrations.get migrationID with
      | none => exact Preserves.fail _
      | some mig =>
          refine Preserves.bind (hL.setStopIntent false) fun _ => ?_
          exact Preserves.bind (resetJobs_keeps (hfailed hs) we.now) fun _ =>
            hL.updateMigrationState _

end

/-! ## Runs -/

/-- One event of a run with the worlds around it. -/
structure RunStep where
  before : World
  call : Option Call
  after : World

def RunStep.spares (migrationID : String) (x : RunStep) : Bool :=
  x.call.all fun c => c.spares migrationID x.before

inductive Run (migrationID : String) (w₀ : World) : List RunStep → World → Prop
  | start : Run migrationID w₀ [] w₀
  | step {steps : List RunStep} {w x : World} (c : Option Call) :
      Run migrationID w₀ steps w → Event migrationID c w x →
      Run migrationID w₀ (steps ++ [⟨w, c, x⟩]) x

/-- The state alone is kept by every run. -/
theorem Run.inState {st : MigrationState} (ht : st.terminal = true) {w₀ w : World}
    (h₀ : InState migrationID st w₀) {steps : List RunStep} (run : Run migrationID w₀ steps w) :
    InState migrationID st w := by
  induction run with
  | start => exact h₀
  | step c _ he ih => exact ih.event ht he

/-- A terminal migration stays in its state, and in a run whose calls spare its
jobs none of them is claimed, queued again or run. -/
theorem terminal_stays_terminal {st : MigrationState} {w₀ : World}
    (hreach : Reachable migrationID w₀) (hst : w₀.stateOf migrationID = some st)
    (ht : st.terminal = true) {steps : List RunStep} {w : World}
    (run : Run migrationID w₀ steps w) :
    w.stateOf migrationID = some st ∧
      ((∀ x ∈ steps, x.spares migrationID = true) →
        w₀.store.jobs.Evolves (JobAtRest migrationID) w.store.jobs) := by
  have h₀ : InState migrationID st w₀ := ⟨hreach.inv, hst⟩
  refine ⟨(run.inState ht h₀).state, fun hs => ?_⟩
  induction run with
  | start => exact Table.Evolves.refl fun j _ => JobAtRest.refl j
  | @step steps w x c run he ih =>
      have hw := ih fun y hy => hs y (List.mem_append_left _ hy)
      have hspares : RunStep.spares migrationID ⟨w, c, x⟩ = true :=
        hs _ (List.mem_append_right _ (List.mem_singleton.mpr rfl))
      have hsettled : Settled migrationID st w.store.jobs w := ⟨run.inState ht h₀, rfl⟩
      have hx : Quiet migrationID st w.store.jobs x := by
        cases he with
        | done c => exact (call_quiet ht hsettled hspares).2
        | crash c _ _ hx => exact (call_quiet ht hsettled hspares).1 x hx
        | edit _ t => exact ((settled_stable ht).live w t hsettled).quiet
      obtain ⟨t', hev, hset⟩ := hx
      rw [hset.jobs]
      exact hw.trans hev fun _ _ _ => JobAtRest.trans

/-! ## The note, discarded -/

/-- The note's migration with its job still to be run. -/
def noteQueued : World :=
  { noteFresh with
    store := { noteFresh.store with sources := [⟨"src-1", "mig-1"⟩], jobs := noteJobs } }

theorem noteQueued_fresh : Fresh "mig-1" noteQueued :=
  ⟨⟨"base", rfl⟩, ⟨0, [noteJob], rfl⟩, rfl, rfl, rfl, rfl, rfl⟩

/-- The world after a call that returns. -/
def World.after (w : World) (c : Call) : World := ((c.run "mig-1").run w).final

theorem noteEvent (c : Call) (w : World) : Event "mig-1" (some c) w (w.after c) := .done c w

/-- A supervisor starts on the discarded note: its jobs are spared. -/
theorem discarded_note_stays_discarded :
    ∃ x, (noteQueued.after .discard).after (.supervisor noteWorker) = x ∧
      x.stateOf "mig-1" = some .discarded ∧
      (noteQueued.after .discard).store.jobs.Evolves (JobAtRest "mig-1") x.store.jobs := by
  have hreach : Reachable "mig-1" (noteQueued.after .discard) :=
    (Reachable.fresh noteQueued noteQueued_fresh).event _ _ _ (noteEvent .discard noteQueued)
  have run := Run.start.step _ (noteEvent (.supervisor noteWorker) (noteQueued.after .discard))
  obtain ⟨hstate, hjobs⟩ := terminal_stays_terminal hreach rfl rfl run
  refine ⟨_, rfl, hstate, hjobs fun y hy => ?_⟩
  rw [List.nil_append, List.mem_singleton] at hy
  subst hy
  rfl

/-- A resume of the discarded note fails, but lifts its stop: the next
supervisor claims the job and runs it. -/
theorem resume_revives_discarded_note : ∃ (steps : List RunStep) (w : World),
    Reachable "mig-1" (noteQueued.after .discard) ∧
      (noteQueued.after .discard).stateOf "mig-1" = some .discarded ∧
      Run "mig-1" (noteQueued.after .discard) steps w ∧
      ¬ (noteQueued.after .discard).store.jobs.Evolves (JobAtRest "mig-1") w.store.jobs := by
  have run := (Run.start.step _ (noteEvent (.resume noteWorker) (noteQueued.after .discard))).step _
    (noteEvent (.supervisor noteWorker) _)
  refine ⟨_, _, (Reachable.fresh noteQueued noteQueued_fresh).event _ _ _ (noteEvent .discard _),
    rfl, run, fun h => ?_⟩
  have hbefore : (noteQueued.after .discard).store.jobs.get "job-1" = some (noteJob.row 0) := rfl
  obtain ⟨j, hj, hrest⟩ := h.get hbefore
  have hgen : ((((noteQueued.after .discard).after (.resume noteWorker)).after
      (.supervisor noteWorker)).store.jobs.get "job-1").map Job.leaseGeneration = some 1 := rfl
  change (((noteQueued.after .discard).after (.resume noteWorker)).after
    (.supervisor noteWorker)).store.jobs.get "job-1" = some j at hj
  rw [hj, Option.map_some, hrest.generation rfl] at hgen
  cases hgen

end Openlia.Operator
