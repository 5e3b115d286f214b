import Openlia.Operator.Migration.Lifecycle
import Openlia.Operator.Migration.Stability

/-! # Reachable worlds

A migration starts as `InitMigrationV2` leaves it. Then calls run one after the
other, any of them may be cut short at a crash point, and users edit the
workspace in between. Over these worlds stand the results on what a crash
recovery touches and on what a manual recovery reports.
-/

namespace Openlia.Operator

open Lib Crash

/-- The calls on one migration. -/
inductive Call where
  | apply (env : Env) (revisionID expectedPatchHash : String)
  | recover (env : Env) (action : String)
  | stop
  | resume (we : WorkerEnv)
  | discard
  | retryJobs (now : Instant)
  | feedback (input : FeedbackInput)
  | supervisor (we : WorkerEnv)

variable (migrationID : String)

def Call.run : Call → Action Unit
  | .apply env revisionID expectedPatchHash =>
      applyRevision env migrationID revisionID expectedPatchHash
  | .recover env action => do
      let _ ← recoverMigration env migrationID action
      pure ()
  | .stop => stopMigration migrationID
  | .resume we => resumeMigration we migrationID
  | .discard => discardMigration migrationID
  | .retryJobs now => Operator.retryJobs migrationID now
  | .feedback input => Operator.feedback migrationID input
  | .supervisor we => runMigrationSupervisor we migrationID

/-- What `InitMigrationV2` leaves: a queued migration with its jobs. -/
structure Fresh (w : World) : Prop where
  migration : ∃ base, w.store.migrations.rows = [⟨migrationID, 2, .queued, none, false, base, ""⟩]
  jobs : ∃ now js, enqueueJobs Table.empty now js = some w.store.jobs
  revisions : w.store.revisions = Table.empty
  feedback : w.store.feedback = Table.empty
  preImages : w.preImages = ∅
  applyDir : w.applyDir = false
  journal : w.journal = none

/-- One event in the life of a migration: a call that returns or crashes, or
an edit of the workspace. -/
inductive Event : Option Call → World → World → Prop
  | done (c : Call) (w : World) : Event (some c) w ((c.run migrationID).run w).final
  | crash (c : Call) (w x : World) : x ∈ ((c.run migrationID).run w).trail → Event (some c) w x
  | edit (w : World) (t : Tree String Bytes) : Event none w (w.setLive t)

inductive Reachable : World → Prop
  | fresh (w : World) : Fresh migrationID w → Reachable w
  | event (c : Option Call) (w x : World) : Reachable w → Event migrationID c w x → Reachable x

variable {migrationID}

/-! ## What the lifecycle calls keep -/

/-- A property that the writes of the lifecycle calls do not break, those of
the job table apart. A stop saves the state it found. -/
structure LifecycleStable (migrationID : String) (I : World → Prop) : Prop where
  intent : ∀ w stop, I w → I (w.setStore (w.store.setStopIntent migrationID stop))
  state : ∀ w state savedPhase, I w →
    savedPhase = none ∨ (state = .stopped ∧ savedPhase = w.stateOf migrationID) →
    I (w.tryState migrationID state savedPhase)
  revision : ∀ w rev s, I w → w.store.createRevision rev = .ok s → I (w.setStore s)
  feedback : ∀ w t, I w → I (w.setStore { w.store with feedback := t })

/-- A property that a write of the job table does not break. -/
def JobsStable (I : World → Prop) : Prop := ∀ w t, I w → I (w.setStore (w.store.setJobs t))

namespace LifecycleStable

variable {I : World → Prop} (h : LifecycleStable migrationID I)
include h

theorem setStopIntent (stop : Bool) : Preserves I (setStopIntent migrationID stop) :=
  Preserves.write fun w hw => h.intent w stop hw

theorem updateMigrationState (state : MigrationState) :
    Preserves I (updateMigrationState migrationID state none) := fun w hw =>
  updateMigrationState_keeps (h.state w state none hw (Or.inl rfl))

/-- The stop of a migration whose state was just read. -/
theorem saveStopped {w : World} {state : MigrationState} (hs : w.stateOf migrationID = some state)
    (hw : I w) : Spec (· = w) (Operator.updateMigrationState migrationID .stopped (some state)) I
      fun _ s => I s := by
  rintro s rfl
  exact updateMigrationState_keeps (h.state s .stopped (some state) hw (Or.inr ⟨rfl, hs.symm⟩))

omit h in
theorem storeStatement {f : Store → Except String Store}
    (hf : ∀ w s, I w → f w.store = .ok s → I (w.setStore s)) : Preserves I (storeStatement f) := by
  intro w hw
  simp only [Operator.storeStatement, Prog.run_get_bind]
  cases hs : f w.store with
  | error e => exact ⟨by simp, hw⟩
  | ok s => exact ⟨by simpa using hf w s hw hs, hf w s hw hs⟩

theorem recordRevision (c : Checkpoint) : Preserves I (recordRevision migrationID c) := by
  refine Preserves.bind Preserves.get fun w => ?_
  refine Preserves.bind (storeStatement fun x s => h.revision x _ s).attempt fun r => ?_
  cases r with
  | error e => exact Preserves.fail _
  | ok u => exact Preserves.pure ()

theorem publishRevisionIfDone (we : WorkerEnv) :
    Preserves I (publishRevisionIfDone we migrationID) := by
  refine Preserves.bind Preserves.get fun w => ?_
  refine Preserves.ite (fun _ => Preserves.pure ()) fun _ => Preserves.ite (fun _ => ?_) fun _ => ?_
  · exact Preserves.ite (fun _ => (h.updateMigrationState _).ignore) fun _ => Preserves.pure ()
  · cases we.publish with
    | error e => exact Preserves.fail e
    | ok c => exact Preserves.bind (h.recordRevision c) fun _ => h.updateMigrationState _

theorem processRevision (we : WorkerEnv) : Preserves I (processRevision we migrationID) := by
  refine Preserves.bind Preserves.get fun w => ?_
  refine Preserves.ite (fun _ => Preserves.fail _) fun _ => ?_
  dsimp only
  cases we.revision with
  | error e => exact Preserves.fail e
  | ok c =>
      refine Preserves.bind (h.recordRevision c) fun _ => ?_
      refine Preserves.bind ?_ fun _ => h.updateMigrationState _
      exact Preserves.write fun w hw => h.feedback w _ hw

theorem stopMigration : Preserves I (stopMigration migrationID) := by
  refine Preserves.get_bind fun w hw => ?_
  cases hm : w.store.migrations.get migrationID with
  | none => exact Spec.fail fun s hs => hs ▸ hw
  | some mig =>
      refine Spec.ite (fun _ => Spec.fail fun s hs => hs ▸ hw) fun _ => ?_
      have hI := h.intent w true hw
      have hstate : (w.setStore (w.store.setStopIntent migrationID true)).stateOf migrationID =
          some mig.state := by simp [World.stateOf, Store.stateOf, hm]
      have hwrite : Spec (· = w) (Operator.setStopIntent migrationID true) I
          fun _ s => s = w.setStore (w.store.setStopIntent migrationID true) :=
        Spec.write (fun s hs => hs ▸ hI) fun s hs => by rw [hs]
      exact hwrite.bind (fun _ => h.saveStopped hstate hI) fun _ s hs => hs ▸ hI

theorem discardMigration : Preserves I (discardMigration migrationID) := by
  refine Preserves.bind Preserves.get fun w => ?_
  cases w.store.migrations.get migrationID with
  | none => exact Preserves.fail _
  | some mig =>
      refine Preserves.ite (fun _ => Preserves.fail _) fun _ => ?_
      exact Preserves.bind (h.setStopIntent true) fun _ => h.updateMigrationState _

theorem addFeedback (input : FeedbackInput) :
    Preserves I (Operator.feedback migrationID input) := by
  refine Preserves.bind Preserves.get fun w => ?_
  cases w.store.migrations.get migrationID with
  | none => exact Preserves.fail _
  | some mig =>
      refine Preserves.bind (storeStatement fun x s hx hs => ?_) fun _ =>
        Preserves.ite (fun _ => (h.updateMigrationState _).ignore) fun _ => Preserves.pure ()
      unfold Store.addFeedback at hs
      split at hs
      · cases hs
      · cases hs
        exact h.feedback x _ hx

/-! ### With the job table -/

variable (hj : JobsStable I)

omit h in
include hj in
theorem jobStatement (f : JobTable → Except String JobTable) : Preserves I (jobStatement f) := by
  refine Preserves.bind Preserves.get fun w => ?_
  cases f w.store.jobs with
  | error e => exact Preserves.fail e
  | ok t => exact Preserves.write fun w hw => hj w t hw

omit h in
include hj in
theorem failOrRetryJob (jobID workerID : String) (leaseGen : Nat) (summary errCode errMsg : String)
    (now : Instant) :
    Preserves I (failOrRetryJob jobID workerID leaseGen summary errCode errMsg now) := by
  refine Preserves.bind Preserves.get fun w => ?_
  cases failOrRetryRead w.store.jobs jobID with
  | error e => exact Preserves.fail e
  | ok x => exact jobStatement hj _

omit h in
include hj in
theorem sweepExpiredJobs (now : Instant) : Preserves I (sweepExpiredJobs migrationID now) := by
  refine Preserves.bind Preserves.get fun w => ?_
  generalize sweepRead w.store.jobs migrationID now = rows
  induction rows with
  | nil => exact Preserves.pure ()
  | cons e rest ih => exact Preserves.bind (Preserves.write fun w hw => hj w _ hw) fun _ => ih

omit h in
include hj in
theorem runJob (we : WorkerEnv) (turn : Turn) (job : Job) :
    Preserves I (runJob we migrationID turn job) := by
  refine Preserves.bind Preserves.get fun w => Preserves.ite (fun _ => ?_) fun _ => ?_
  · refine Preserves.bind (Preserves.ignore ?_) fun _ => ?_
    · induction turn.heartbeats with
      | nil => exact Preserves.pure ()
      | cons now rest ih => exact Preserves.bind (jobStatement hj _) fun _ => ih
    · cases turn.outcome with
      | runnerError message => exact (failOrRetryJob hj _ _ _ _ _ _ _).ignore
      | checkpointError message => exact (failOrRetryJob hj _ _ _ _ _ _ _).ignore
      | finished rationale changedPaths findings questions => exact (jobStatement hj _).ignore
  · exact (jobStatement hj _).ignore

include hj

theorem runTurn (we : WorkerEnv) (turn : Turn) : Preserves I (runTurn we migrationID turn) := by
  refine Preserves.get_bind fun w hw => ?_
  cases hf : (w.store.migrations.get migrationID).filter Migration.halted with
  | some mig =>
      obtain ⟨hm, -⟩ := Option.filter_eq_some_iff.mp hf
      have hstate : w.stateOf migrationID = some mig.state := by
        simp [World.stateOf, Store.stateOf, hm]
      have hstop : Spec (· = w) (Prog.ignore (Operator.updateMigrationState migrationID .stopped
          (some mig.state))) I fun _ s => I s := (h.saveStopped hstate hw).ignore
      exact hstop.bind (fun _ => Spec.pure fun _ hs => hs) fun _ _ hs => hs
  | none =>
      have hfrom : ∀ p : Action TurnEnd, Preserves I p → Spec (· = w) p I fun _ t => I t :=
        fun p hp => hp.conseq (fun _ hs => hs ▸ hw) (fun _ hs => hs) fun _ _ hs => hs
      refine hfrom _ ?_
      cases claimNextJob w.store.jobs migrationID we.workerID leaseTime turn.claimAt turn.pick with
      | none => exact Preserves.pure _
      | some x =>
          refine Preserves.bind (Preserves.write fun w hw => hj w _ hw) fun _ => ?_
          exact Preserves.bind (runJob hj we turn x.1) fun _ => Preserves.pure _

theorem runTurns (we : WorkerEnv) (turns : List Turn) :
    Preserves I (runTurns we migrationID turns) := by
  induction turns with
  | nil => exact Preserves.fail _
  | cons turn rest ih =>
      refine Preserves.bind (h.runTurn hj we turn) fun r => ?_
      cases r with
      | halted => exact Preserves.pure ()
      | idle => exact h.publishRevisionIfDone we
      | ran => exact ih

theorem runMigrationSupervisor (we : WorkerEnv) :
    Preserves I (runMigrationSupervisor we migrationID) := by
  refine Preserves.bind Preserves.get fun w => ?_
  cases w.store.migrations.get migrationID with
  | none => exact Preserves.fail _
  | some m =>
      cases we.repoError with
      | some e => exact Preserves.fail e
      | none =>
          refine Preserves.bind (h.updateMigrationState _).ignore fun _ => ?_
          unfold runUntilIdle
          cases we.lockError with
          | some e => exact Preserves.fail e
          | none =>
              refine Preserves.bind (sweepExpiredJobs hj _).ignore fun _ => ?_
              refine Preserves.get_bind fun w hw => ?_
              have hfrom : ∀ p : Action Unit, Preserves I p → Spec (· = w) p I fun _ t => I t :=
                fun p hp => hp.conseq (fun _ hs => hs ▸ hw) (fun _ hs => hs) fun _ _ hs => hs
              cases hm : w.store.migrations.get migrationID with
              | none => exact hfrom _ (h.runTurns hj we _)
              | some mig =>
                  have hstate : w.stateOf migrationID = some mig.state := by
                    simp [World.stateOf, Store.stateOf, hm]
                  refine Spec.ite (fun _ => (h.saveStopped hstate hw).ignore) fun _ => hfrom _ ?_
                  exact Preserves.ite (fun _ => h.processRevision we) fun _ => h.runTurns hj we _

theorem resumePhase (now : Instant) : Preserves I (resumePhase migrationID now) := by
  refine Preserves.bind Preserves.get fun w => ?_
  cases w.store.migrations.get migrationID with
  | none => exact Preserves.fail _
  | some mig =>
      refine Preserves.bind (h.setStopIntent false) fun _ => ?_
      exact Preserves.bind (jobStatement hj _) fun _ => h.updateMigrationState _

/-- Every call keeps what neither an apply nor a lifecycle call breaks. -/
theorem call (ha : Stable migrationID I) (c : Call) : Preserves I (c.run migrationID) := by
  cases c with
  | apply env revisionID expectedPatchHash => exact ha.applyRevision revisionID expectedPatchHash
  | recover env action =>
      exact Preserves.bind (ha.recoverMigration action) fun _ => Preserves.pure ()
  | stop => exact h.stopMigration
  | resume we =>
      exact Preserves.bind (h.resumePhase hj we.now) fun _ => h.runMigrationSupervisor hj we
  | discard => exact h.discardMigration
  | retryJobs now =>
      exact Preserves.bind (jobStatement hj _) fun _ => (h.updateMigrationState _).ignore
  | feedback input => exact h.addFeedback input
  | supervisor we => exact h.runMigrationSupervisor hj we

end LifecycleStable

/-! ## The invariant -/

/-- A journal names files apart from each other, and a stop never saved a
terminal state. -/
structure WorldInv (migrationID : String) (w : World) : Prop where
  apart : PathsApart w.journaledOps
  saved : ∀ m, w.store.migrations.get migrationID = some m →
    ∀ p, m.savedPhase = some p → p.terminal = false

namespace WorldInv

/-- What keeps the journal and the saved phase of the row. -/
theorem of_eq {w x : World} (h : WorldInv migrationID w) (hj : x.journal = w.journal)
    (hm : ∀ m, x.store.migrations.get migrationID = some m →
      ∃ m', w.store.migrations.get migrationID = some m' ∧ m.savedPhase = m'.savedPhase) :
    WorldInv migrationID x := by
  refine ⟨?_, fun m hx p hp => ?_⟩
  · rw [World.journaledOps, hj]
    exact h.apart
  · obtain ⟨m', hm', he⟩ := hm m hx
    exact h.saved m' hm' p (he ▸ hp)

/-- An update of the state saves no phase, or the phase that is left for `stopped`. -/
theorem tryState {w : World} (h : WorldInv migrationID w) {state : MigrationState}
    {savedPhase : Option MigrationState}
    (hs : savedPhase = none ∨ (state = .stopped ∧ savedPhase = w.stateOf migrationID)) :
    WorldInv migrationID (w.tryState migrationID state savedPhase) := by
  unfold World.tryState
  cases hu : w.store.updateMigrationState migrationID state savedPhase with
  | error e => exact h
  | ok s =>
      refine ⟨h.apart, fun m hm p hp => ?_⟩
      have hget := (Store.updateMigrationState_ok hu).1
      rw [World.setStore_store, hget, Option.map_eq_some_iff] at hm
      obtain ⟨m', hm', rfl⟩ := hm
      rcases hs with rfl | ⟨rfl, rfl⟩
      · exact h.saved m' hm' p hp
      · have hstate : w.stateOf migrationID = some m'.state := by
          simp [World.stateOf, Store.stateOf, hm']
        have hv := (Store.updateMigrationState_isOk .stopped (w.stateOf migrationID) hstate).mp
          ⟨s, hu⟩
        obtain rfl : m'.state = p := by simpa [Migration.moved, hstate] using hp
        by_contra ht
        rw [Bool.not_eq_false] at ht
        rw [isValidStateTransition_terminal ht] at hv
        rw [hv] at ht
        cases ht

theorem lifecycleStable : LifecycleStable migrationID (WorldInv migrationID) where
  intent w stop h := h.of_eq rfl fun m hm => by
    rw [World.setStore_store, Store.get_setStopIntent, Option.map_eq_some_iff] at hm
    obtain ⟨m', hm', rfl⟩ := hm
    exact ⟨m', hm', rfl⟩
  state w state savedPhase h hs := h.tryState hs
  revision w rev s h hs := h.of_eq rfl fun m hm => by
    unfold Store.createRevision at hs
    split at hs
    · cases hs
    · cases hs
      rw [World.setStore_store] at hm
      by_cases hid : rev.migrationID = migrationID
      · rw [hid, Store.get_mapMigration, Option.map_eq_some_iff] at hm
        obtain ⟨m', hm', rfl⟩ := hm
        exact ⟨m', hm', rfl⟩
      · rw [Store.mapMigration, Table.get_update, Option.map_eq_some_iff] at hm
        obtain ⟨m', hm', rfl⟩ := hm
        refine ⟨m', hm', ?_⟩
        split <;> rfl
  feedback w t h := h.of_eq rfl fun m hm => ⟨m, hm, rfl⟩

theorem stable : Stable migrationID (WorldInv migrationID) where
  apart _ h := h.apart
  live _ _ h := h.of_eq rfl fun m hm => ⟨m, hm, rfl⟩
  saved _ _ _ h := h.of_eq rfl fun m hm => ⟨m, hm, rfl⟩
  state _ _ h := h.tryState (Or.inl rfl)
  journal w j h hj := by
    unfold World.putJournal
    split
    · exact ⟨hj, h.saved⟩
    · exact h

theorem jobsStable : JobsStable (WorldInv migrationID) :=
  fun _ _ h => h.of_eq rfl fun m hm => ⟨m, hm, rfl⟩

/-- The invariant survives every event. -/
theorem event {c : Option Call} {w x : World} (h : WorldInv migrationID w)
    (he : Event migrationID c w x) : WorldInv migrationID x := by
  have hcall : ∀ c : Call, Preserves (WorldInv migrationID) (c.run migrationID) :=
    lifecycleStable.call jobsStable stable
  cases he with
  | done c => exact (hcall c).final h
  | crash c _ _ hx => exact (hcall c).trail h hx
  | edit _ t => exact stable.live w t h

end WorldInv

theorem Reachable.inv {w : World} (h : Reachable migrationID w) : WorldInv migrationID w := by
  induction h with
  | fresh w h =>
      refine ⟨?_, fun m hm p hp => ?_⟩
      · rw [World.journaledOps, h.journal]
        exact List.Pairwise.nil
      · obtain ⟨base, hrows⟩ := h.migration
        have hmem := Table.mem_of_get hm
        rw [hrows, List.mem_singleton] at hmem
        rw [hmem] at hp
        cases hp
  | event c w x _ he ih => exact ih.event he

/-! ## Recovery from a reachable crash -/

/-- After a crash of an apply and any edits of the workspace, the recovery
touches only what the apply wrote exactly when it is harmless. -/
theorem recovery_touches_own_files_iff {env env' : Env} {revisionID expectedPatchHash : String}
    {w x : World} (hw : Reachable migrationID w)
    (hx : x ∈ ((applyRevision env migrationID revisionID expectedPatchHash).run w).trail)
    (found : Tree String Bytes) :
    TouchesOwnFiles env.sha256 x.journaledOps x.live found
        ((reconcileInterruptedApply env' migrationID).run (x.setLive found)).final.live ↔
      x.recoveryHarmless env.sha256 env' found = true :=
  have hreach : Reachable migrationID x :=
    hw.event _ w x (.crash (.apply env revisionID expectedPatchHash) w x hx)
  reconcile_touches_iff hreach.inv.apart env.sha256 found

/-- A recovery called in a reachable world reports the truth exactly when the
transition table lets the state follow and a rollback can undo every operation. -/
theorem recovery_tells_truth_iff {env : Env} {w : World} (hw : Reachable migrationID w)
    {action : String} {r : RecoveryResult}
    (hr : ((recoverMigration env migrationID action).run w).result = .ok r) :
    Truthful env migrationID w ((recoverMigration env migrationID action).run w).final r ↔
      reportsTruth env migrationID action w = true :=
  recover_truthful_iff hw.inv.apart hr

/-! ## The note, from the start -/

/-- The note's migration as it was created, with no source left to process. -/
def noteFresh : World :=
  { noteWorld with
    store := ⟨⟨[{ noteMigration with state := .queued, activeRevisionID := "" }], by simp⟩, [],
      Table.empty, Table.empty, Table.empty⟩ }

/-- A worker that finds no job and publishes the commit of the note. -/
def noteWorker : WorkerEnv where
  repoError := none
  lockError := none
  now := 0
  turns := [⟨0, 0, [], .finished "" [] [] [], 0⟩]
  publish := .ok ⟨"c1", "t1", byteHash []⟩
  revision := .error "runner error on revision: exit status 1"

theorem noteFresh_fresh : Fresh "mig-1" noteFresh :=
  ⟨⟨"base", rfl⟩, ⟨0, [], rfl⟩, rfl, rfl, rfl, rfl, rfl⟩

theorem noteWorld_reachable : Reachable "mig-1" noteWorld := by
  have hrun : ((Call.run "mig-1" (.supervisor noteWorker)).run noteFresh).final = noteWorld := rfl
  rw [← hrun]
  exact (Reachable.fresh noteFresh noteFresh_fresh).event _ _ _ (.done _ _)

theorem reachable_of_note_crash {x : World}
    (hx : x ∈ ((applyRevision noteEnv "mig-1" "" "").run noteWorld).trail) :
    Reachable "mig-1" x :=
  noteWorld_reachable.event _ _ _ (.crash (.apply noteEnv "" "") _ _ hx)

/-- A crash after the file was written, and nobody touched it since. -/
theorem recovery_touches_own_note : ∃ x : World,
    TouchesOwnFiles byteHash x.journaledOps x.live x.live
      ((reconcileInterruptedApply noteEnv "mig-1").run (x.setLive x.live)).final.live ∧
    ((reconcileInterruptedApply noteEnv "mig-1").run (x.setLive x.live)).final.live.content
      ["notes", "a.md"] = none := by
  obtain ⟨x, hx, hharm, hgone⟩ : ∃ x,
      ((applyRevision noteEnv "mig-1" "" "").run noteWorld).trail[4]? = some x ∧
      x.recoveryHarmless byteHash noteEnv x.live = true ∧
      ((reconcileInterruptedApply noteEnv "mig-1").run (x.setLive x.live)).final.live.content
        ["notes", "a.md"] = none := ⟨_, rfl, rfl, rfl⟩
  exact ⟨x, (recovery_touches_own_files_iff noteWorld_reachable (List.mem_of_getElem? hx)
    x.live).mpr hharm, hgone⟩

/-- The workspace with a file of the user's own at the note's path. -/
def noteByHand : Tree String Bytes :=
  match Tree.empty.mkdirAll ["notes"] with
  | .error _ => Tree.empty
  | .ok t =>
      match t.writeFile ["notes", "a.md"] [33] with
      | .error _ => Tree.empty
      | .ok t' => t'

/-- After a crash before the first operation the recovery deletes a file that
the user wrote. -/
theorem recovery_deletes_user_file : ∃ x : World, Reachable "mig-1" x ∧
    x ∈ ((applyRevision noteEnv "mig-1" "" "").run noteWorld).trail ∧
    x.live.content ["notes", "a.md"] = none ∧
    noteByHand.content ["notes", "a.md"] = some [33] ∧
    ((reconcileInterruptedApply noteEnv "mig-1").run (x.setLive noteByHand)).final.live.content
      ["notes", "a.md"] = none ∧
    ¬ TouchesOwnFiles byteHash x.journaledOps x.live noteByHand
      ((reconcileInterruptedApply noteEnv "mig-1").run (x.setLive noteByHand)).final.live := by
  obtain ⟨x, hx, hops, hbefore, hgone⟩ : ∃ x,
      ((applyRevision noteEnv "mig-1" "" "").run noteWorld).trail[1]? = some x ∧
      x.journaledOps = noteOps ∧ x.live.content ["notes", "a.md"] = none ∧
      ((reconcileInterruptedApply noteEnv "mig-1").run (x.setLive noteByHand)).final.live.content
        ["notes", "a.md"] = none := ⟨_, rfl, rfl, rfl, rfl⟩
  have hmem := List.mem_of_getElem? hx
  have hfound : noteByHand.content ["notes", "a.md"] = some [33] := rfl
  refine ⟨x, reachable_of_note_crash hmem, hmem, hbefore, hfound, hgone, fun h => ?_⟩
  rcases h ["notes", "a.md"] with hsame | ⟨op, hop, -, hnew, -⟩
  · rw [hgone, hfound] at hsame
    cases hsame
  · rw [hops, noteOps, List.mem_singleton] at hop
    subst hop
    rw [hfound] at hnew
    exact absurd hnew (by decide)

/-- Before the state is `applying`, a manual rollback reports the truth. -/
theorem recovery_tells_truth_journaled_note : ∃ (x : World) (r : RecoveryResult),
    r.action = "rollback" ∧
    Truthful noteEnv "mig-1" x ((recoverMigration noteEnv "mig-1" "rollback").run x).final r := by
  obtain ⟨x, r, hx, hr, haction, htruth⟩ : ∃ x r,
      ((applyRevision noteEnv "mig-1" "" "").run noteWorld).trail[1]? = some x ∧
      ((recoverMigration noteEnv "mig-1" "rollback").run x).result = .ok r ∧
      r.action = "rollback" ∧ reportsTruth noteEnv "mig-1" "rollback" x = true :=
    ⟨_, _, rfl, rfl, rfl, rfl⟩
  exact ⟨x, r, haction, (recovery_tells_truth_iff
    (reachable_of_note_crash (List.mem_of_getElem? hx)) hr).mpr htruth⟩

/-- Once the state is `applying`, a manual rollback reports `ready_for_review`
and the state stays. -/
theorem recovery_reports_rejected_state : ∃ (x : World) (r : RecoveryResult),
    Reachable "mig-1" x ∧
    ((recoverMigration noteEnv "mig-1" "rollback").run x).result = .ok r ∧
    r.status = .readyForReview ∧
    ((recoverMigration noteEnv "mig-1" "rollback").run x).final.stateOf "mig-1" =
      some .applying ∧
    ¬ Truthful noteEnv "mig-1" x ((recoverMigration noteEnv "mig-1" "rollback").run x).final r := by
  obtain ⟨x, r, hx, hr, hstatus, hstate⟩ : ∃ x r,
      ((applyRevision noteEnv "mig-1" "" "").run noteWorld).trail[2]? = some x ∧
      ((recoverMigration noteEnv "mig-1" "rollback").run x).result = .ok r ∧
      r.status = .readyForReview ∧
      ((recoverMigration noteEnv "mig-1" "rollback").run x).final.stateOf "mig-1" =
        some .applying := ⟨_, _, rfl, rfl, rfl, rfl⟩
  refine ⟨x, r, reachable_of_note_crash (List.mem_of_getElem? hx), hr, hstatus, hstate,
    fun h => ?_⟩
  have hs := h.status
  rw [hstate, hstatus] at hs
  cases hs

end Openlia.Operator
