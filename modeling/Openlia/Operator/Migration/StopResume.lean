import Openlia.Operator.Migration.Reachable

/-! # Stop and resume

`StopMigration` saves the phase it leaves and `ResumeMigration` asks for the
phase that was saved. A second stop saves `stopped`, and the transition table
out of `stopped` has only some of the phases that a stop can save.
-/

namespace Openlia.Operator

open Lib Crash

variable {migrationID : String}

/-- The column `saved_phase`. -/
def World.savedPhaseOf (w : World) (id : String) : Option MigrationState :=
  (w.store.migrations.get id).bind Migration.savedPhase

/-! ## The two calls on a row -/

/-- The row a stop leaves. -/
def Migration.stoppedRow (m : Migration) : Migration :=
  { m with stopIntent := true }.moved .stopped (some m.state)

theorem stopMigration_run {w : World} {m : Migration}
    (hm : w.store.migrations.get migrationID = some m)
    (hs : ¬ (m.state = .applying ∨ m.state = .applied))
    (hv : isValidStateTransition m.state .stopped = true) :
    ((stopMigration migrationID).run w).result = .ok () ∧
      ((stopMigration migrationID).run w).final.store.migrations.get migrationID =
        some m.stoppedRow := by
  have hrow : (w.setStore (w.store.setStopIntent migrationID true)).store.migrations.get
      migrationID = some { m with stopIntent := true } := by simp [hm]
  have hstate : (w.setStore (w.store.setStopIntent migrationID true)).stateOf migrationID =
      some m.state := by simp [World.stateOf, Store.stateOf, hm]
  simp only [stopMigration, Prog.run_get_bind, hm, if_neg hs, setStopIntent, Prog.run_write_bind,
    updateMigrationState_run .stopped (some m.state) hstate hv]
  exact ⟨trivial, World.get_tryState hrow hv⟩

/-- A stop succeeds only from a state that it does not refuse and that may
become `stopped`. -/
theorem stopMigration_ok {w : World} {m : Migration}
    (hm : w.store.migrations.get migrationID = some m)
    (h : ((stopMigration migrationID).run w).result = .ok ()) :
    ¬ (m.state = .applying ∨ m.state = .applied) ∧
      isValidStateTransition m.state .stopped = true := by
  have hs : ¬ (m.state = .applying ∨ m.state = .applied) := by
    intro hs
    simp [stopMigration, hm, hs] at h
  refine ⟨hs, ?_⟩
  by_contra hv
  have hstate : (w.setStore (w.store.setStopIntent migrationID true)).stateOf migrationID =
      some m.state := by simp [World.stateOf, Store.stateOf, hm]
  obtain ⟨e, he⟩ := updateMigrationState_rejected (some m.state) hstate (by simpa using hv)
  simp only [stopMigration, Prog.run_get_bind, hm, if_neg hs, setStopIntent, Prog.run_write_bind,
    he] at h
  cases h

/-- Until the supervisor runs, a resume moves the row to its target or fails. -/
theorem resumePhase_run {w : World} {m : Migration}
    (hm : w.store.migrations.get migrationID = some m) (now : Instant) :
    if isValidStateTransition m.state m.resumeTarget then
      ((resumePhase migrationID now).run w).result = .ok () ∧
        ((resumePhase migrationID now).run w).final.store.migrations.get migrationID =
          some ({ m with stopIntent := false }.moved m.resumeTarget none)
    else ∃ e, ((resumePhase migrationID now).run w).result = .error e := by
  have hrun : ∀ x : World, x = (w.setStore (w.store.setStopIntent migrationID false)).setStore
      ((w.store.setStopIntent migrationID false).setJobs
        (resetFailedJobs (w.store.setStopIntent migrationID false).jobs migrationID now)) →
      ((resumePhase migrationID now).run w).result =
          ((updateMigrationState migrationID m.resumeTarget none).run x).result ∧
        ((resumePhase migrationID now).run w).final =
          ((updateMigrationState migrationID m.resumeTarget none).run x).final := by
    rintro x rfl
    simp [resumePhase, hm, setStopIntent]
  obtain ⟨hres, hfin⟩ := hrun _ rfl
  generalize hx : (w.setStore (w.store.setStopIntent migrationID false)).setStore _ = x at hres hfin
  have hrow : x.store.migrations.get migrationID = some { m with stopIntent := false } := by
    rw [← hx]
    simp [hm]
  have hstate : x.stateOf migrationID = some m.state := by
    simp [World.stateOf, Store.stateOf, hrow]
  rw [hres, hfin]
  cases hv : isValidStateTransition m.state m.resumeTarget with
  | true =>
      rw [if_pos rfl, updateMigrationState_run m.resumeTarget none hstate hv]
      exact ⟨rfl, World.get_tryState hrow hv⟩
  | false =>
      rw [if_neg (by simp)]
      obtain ⟨e, he⟩ := updateMigrationState_rejected none hstate hv
      exact ⟨e, by rw [he]⟩

/-! ## Stops in a row -/

/-- Further stop calls, whatever they answer. -/
def stopAgain (migrationID : String) : Nat → Action Unit
  | 0 => pure ()
  | n + 1 => do
      Prog.ignore (stopMigration migrationID)
      stopAgain migrationID n

/-- The world after a stop and `n` further ones. -/
def afterStops (migrationID : String) (n : Nat) (w : World) : World :=
  ((stopAgain migrationID n).run ((stopMigration migrationID).run w).final).final

/-- Each stop of a stopped migration saves `stopped`. -/
theorem stopAgain_row {w : World} {m : Migration}
    (hm : w.store.migrations.get migrationID = some m) (hs : m.state = .stopped) (n : Nat) :
    ∃ m', ((stopAgain migrationID n).run w).final.store.migrations.get migrationID = some m' ∧
      m'.state = .stopped ∧
      m'.savedPhase = if n = 0 then m.savedPhase else some .stopped := by
  induction n generalizing w m with
  | zero => exact ⟨m, hm, hs, rfl⟩
  | succ n ih =>
      obtain ⟨-, hrow⟩ := stopMigration_run hm (by simp [hs]) (by rw [hs]; rfl)
      obtain ⟨m', hm', hstate, hsaved⟩ := ih hrow rfl
      refine ⟨m', by simpa [stopAgain] using hm', hstate, ?_⟩
      rw [hsaved]
      cases n with
      | zero => simp [Migration.stoppedRow, Migration.moved, hs]
      | succ n => rfl

/-- A resume after a stop and `n` further ones undoes the stop of a migration
that was in the phase `p`. -/
structure ResumeUndoesStop (migrationID : String) (now : Instant) (n : Nat) (w : World)
    (p : MigrationState) : Prop where
  resumes : ((resumePhase migrationID now).run (afterStops migrationID n w)).result = .ok ()
  restores : ((resumePhase migrationID now).run (afterStops migrationID n w)).final.stateOf
    migrationID = some p
  saved : ∃ q, (afterStops migrationID n w).savedPhaseOf migrationID = some q ∧ q ≠ .stopped ∧
    isValidStateTransition .stopped q = true
  later : ∀ (x : World) (q : MigrationState), x.savedPhaseOf migrationID =
      ((resumePhase migrationID now).run (afterStops migrationID n w)).final.savedPhaseOf
        migrationID →
    x.stateOf migrationID = some q → ((stopMigration migrationID).run x).result = .ok () →
    ((stopMigration migrationID).run x).final.savedPhaseOf migrationID = some q

theorem stopMigration_saves {x : World} {q : MigrationState}
    (hq : x.stateOf migrationID = some q)
    (h : ((stopMigration migrationID).run x).result = .ok ()) :
    ((stopMigration migrationID).run x).final.savedPhaseOf migrationID = some q := by
  simp only [World.stateOf, Store.stateOf, Option.map_eq_some_iff] at hq
  obtain ⟨m, hm, rfl⟩ := hq
  obtain ⟨hs, hv⟩ := stopMigration_ok hm h
  simp [World.savedPhaseOf, (stopMigration_run hm hs hv).2, Migration.stoppedRow, Migration.moved]

/-- A resume undoes a stop exactly when the migration was in one of the three
phases that `stopped` may lead back to, and it was stopped once. -/
theorem resume_undoes_stop_iff {w : World} {p : MigrationState}
    (hp : w.stateOf migrationID = some p)
    (hstop : ((stopMigration migrationID).run w).result = .ok ()) (n : Nat) (now : Instant) :
    ResumeUndoesStop migrationID now n w p ↔
      (p = .queued ∨ p = .processing ∨ p = .readyForReview) ∧ n = 0 := by
  simp only [World.stateOf, Store.stateOf, Option.map_eq_some_iff] at hp
  obtain ⟨m, hm, rfl⟩ := hp
  obtain ⟨hs, hv⟩ := stopMigration_ok hm hstop
  obtain ⟨-, hrow⟩ := stopMigration_run hm hs hv
  obtain ⟨m', hm', hstate, hsaved⟩ := stopAgain_row hrow rfl n
  change (afterStops migrationID n w).store.migrations.get migrationID = some m' at hm'
  -- the phase asked for is the phase saved
  obtain ⟨q, hq⟩ : ∃ q, q = if n = 0 then m.state else .stopped := ⟨_, rfl⟩
  have hsaved' : m'.savedPhase = some q := by
    rw [hsaved, hq]
    by_cases hn : n = 0 <;> simp [hn, Migration.stoppedRow, Migration.moved]
  have htarget : m'.resumeTarget = q := by
    by_cases hr : q = .revising <;> simp [Migration.resumeTarget, hstate, hsaved', hr]
  have hphase : (afterStops migrationID n w).savedPhaseOf migrationID = some q := by
    simp [World.savedPhaseOf, hm', hsaved']
  have hrun := resumePhase_run hm' now
  rw [hstate, htarget] at hrun
  constructor
  · rintro ⟨-, hrestore, ⟨q', hq', hne, hvalid⟩, -⟩
    obtain rfl : q = q' := Option.some.inj (hphase.symm.trans hq')
    rw [if_pos hvalid] at hrun
    have hfinal : q = m.state := by
      simpa [World.stateOf, Store.stateOf, hrun.2, Migration.moved] using hrestore
    have hn : n = 0 := by
      by_contra hn
      exact hne (by rw [hq, if_neg hn])
    refine ⟨?_, hn⟩
    rw [hfinal] at hne hvalid
    cases hm : m.state <;> simp_all [isValidStateTransition, validStateTransitions]
  · rintro ⟨hphases, rfl⟩
    have hqm : q = m.state := hq
    have hvalid : isValidStateTransition .stopped q = true := by
      rw [hqm]
      rcases hphases with h | h | h <;> rw [h] <;> rfl
    rw [if_pos hvalid] at hrun
    refine ⟨hrun.1, ?_, ⟨q, hphase, ?_, hvalid⟩, fun x q _ hx hok => stopMigration_saves hx hok⟩
    · simp [World.stateOf, Store.stateOf, hrun.2, Migration.moved, hqm]
    · rw [hqm]
      rcases hphases with h | h | h <;> rw [h] <;> simp

/-- A queued migration that was stopped once. -/
theorem resume_undoes_stop_note : ResumeUndoesStop "mig-1" 0 0 noteFresh .queued :=
  (resume_undoes_stop_iff rfl rfl 0 0).mpr ⟨Or.inl rfl, rfl⟩

/-- A queued migration that was stopped twice stays stopped after a resume. -/
theorem second_stop_loses_phase :
    Reachable "mig-1" noteFresh ∧ noteFresh.stateOf "mig-1" = some .queued ∧
      ((stopMigration "mig-1").run noteFresh).result = .ok () ∧
      ((resumePhase "mig-1" 0).run (afterStops "mig-1" 1 noteFresh)).final.stateOf "mig-1" =
        some .stopped ∧
      ¬ ResumeUndoesStop "mig-1" 0 1 noteFresh .queued := by
  refine ⟨.fresh noteFresh noteFresh_fresh, rfl, rfl, rfl, fun h => ?_⟩
  have hs : some MigrationState.stopped = some .queued := h.restores
  cases hs

end Openlia.Operator
