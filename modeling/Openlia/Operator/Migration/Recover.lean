import Openlia.Operator.Migration.CrashRecovery

/-! # RecoverMigration

The manual actions on a migration. What they report is fixed by the action; the
database and the pre-images decide whether it is so.
-/

namespace Openlia.Operator

open Lib Crash

structure RecoveryResult where
  action : String
  migrationID : String
  status : MigrationState
  message : String
  journal : StoredApplyJournal
  deriving DecidableEq, Repr

def JournalStatus.text : JournalStatus → String
  | .unset => ""
  | .preparing => "preparing"
  | .applying => "applying"
  | .inProgress => "in_progress"
  | .rollingBack => "rolling_back"
  | .rolledBack => "rolled_back"
  | .applied => "applied"
  | .failed => "failed"
  | .resolved => "resolved"

/-- The message of `inspect`. -/
def inspectMessage (migrationID : String) (state : MigrationState)
    (journal : Option StoredApplyJournal) : String :=
  "Migration " ++ migrationID ++ " is in state '" ++ state.text ++ "'." ++
    match journal with
    | some j => " Journal status: '" ++ j.status.text ++ "' with " ++
        toString j.operations.length ++ " operations."
    | none => " No on-disk apply journal found."

/-- The manual rollback marks what it could restore and keeps the other statuses. -/
def markRecovered (ops : List ApplyOperation) (restored : List Bool) : List ApplyOperation :=
  ops.zipWith (fun op ok => { op with status := if ok then .rolledBack else op.status }) restored

/-- `RecoverMigration`. -/
def recoverMigration (env : Env) (migrationID action : String) : Action RecoveryResult := do
  let action := if action = "" then "inspect" else action
  let w ← Prog.get
  match w.store.migrations.get migrationID with
  | none => Prog.fail ("migration " ++ migrationID ++ " not found: %!w(<nil>)")
  | some mig =>
      let journal := w.journal.getD StoredApplyJournal.zero
      if action = "inspect" then
        pure ⟨action, migrationID, mig.state, inspectMessage migrationID mig.state w.journal, journal⟩
      else if action = "rollback" then
        match env.lockError with
        | some e => Prog.fail ("acquire workspace lock: " ++ e)
        | none => do
            let restored ← restoreOperations env .recover journal.operations
            let journal := { journal with
              operations := markRecovered journal.operations restored
              status := .rolledBack
              updatedAt := env.now }
            recordOutcome migrationID journal .readyForReview
            pure ⟨action, migrationID, .readyForReview,
              "Pre-images successfully restored. Migration reset to ready_for_review.", journal⟩
      else if action = "retry" then do
        match ← Prog.attempt (applyRevision env migrationID mig.activeRevisionID "") with
        | .error e => Prog.fail ("retry apply: " ++ e)
        | .ok () => pure ⟨action, migrationID, .applied,
            "Migration apply retried and succeeded.", journal⟩
      else if action = "resolve" then do
        let journal := { journal with status := .resolved, updatedAt := env.now }
        recordOutcome migrationID journal .readyForReview
        pure ⟨action, migrationID, .readyForReview,
          "Migration marked resolved. State reset to ready_for_review.", journal⟩
      else
        Prog.fail ("unknown recovery action '" ++ action ++
          "': supported actions are inspect, rollback, retry, resolve")

/-! ## The truth of a report -/

/-- The pre-image a journal names for an operation. -/
def savedPreImage (files : PreImages) (op : ApplyOperation) : Option Bytes :=
  op.backupPath.bind fun p => files.lookup p

/-- An operation's path is back as it was before the apply. -/
def PutBack (files : PreImages) (t : Tree String Bytes) (op : ApplyOperation) : Prop :=
  if op.existedBefore then ∃ data, savedPreImage files op = some data ∧
    t.content op.path = some data
  else t.node op.path = none

/-- The answer of a recovery from `w` is true of the state `w'` it left. -/
structure Truthful (env : Env) (migrationID : String) (w w' : World) (r : RecoveryResult) :
    Prop where
  status : w'.stateOf migrationID = some r.status
  rollback : r.action = "rollback" → ∀ op ∈ w.journaledOps, PutBack w.preImages w'.live op
  retry : r.action = "retry" → w'.stateOf migrationID = some .applied ∧
    ∃ j, w'.journal = some j ∧ j.status = .applied ∧ ∀ op ∈ j.operations,
      w'.live.content op.path = revisionContent env j.commitHash op.path

/-- Undoing the operation leaves its path as it was before the apply: the
pre-image is there and can be written, or nothing is in the way of a removal. -/
def undoable (env : Env) (i : Nat) (files : PreImages) (t : Tree String Bytes)
    (op : ApplyOperation) : Bool :=
  if op.existedBefore then
    match savedPreImage files op with
    | none => false
    | some data => decide (t.content op.path = some data) ||
        ((env.fault (.restoreRead .recover i)).isNone && restoreWritable env .recover i t op.path)
  else (t.node op.path).isNone ||
    ((env.fault (.restoreRemove .recover i)).isNone && decide (op.path ≠ []) &&
      !t.hasChild op.path)

/-- The state may become `ready_for_review`. -/
def World.mayReview (w : World) (migrationID : String) : Bool :=
  match w.stateOf migrationID with
  | some state => isValidStateTransition state .readyForReview
  | none => false

/-- When the answer of an action is true. -/
def reportsTruth (env : Env) (migrationID action : String) (w : World) : Bool :=
  if action = "rollback" then
    w.mayReview migrationID &&
      w.journaledOps.zipIdx.all fun x => undoable env x.2 w.preImages w.live x.1
  else if action = "resolve" then w.mayReview migrationID
  else true

variable {env : Env} {migrationID : String}

/-- What undoing an operation leaves at its path is the pre-image exactly when
the operation is undoable. -/
theorem putBack_iff {i : Nat} {files : PreImages} {t t' : Tree String Bytes} {op : ApplyOperation}
    (h : t'.node op.path = restoredNode env .recover i files t op) :
    PutBack files t' op ↔ undoable env i files t op = true := by
  unfold PutBack undoable restoredNode at *
  cases he : op.existedBefore with
  | false =>
      simp only [he, Bool.false_eq_true, if_false] at h ⊢
      rw [h]
      cases hf : env.fault (.restoreRemove .recover i) <;> by_cases hp : op.path = [] <;>
        cases hc : t.hasChild op.path <;> simp [hp]
  | true =>
      simp only [he, if_true] at h ⊢
      cases hs : savedPreImage files op with
      | none => simp
      | some data =>
          have hpre : preImage env .recover i files op =
              match env.fault (.restoreRead .recover i) with
              | some e => .error e
              | none => .ok data := by
            obtain ⟨p, hb, hl⟩ := Option.bind_eq_some_iff.mp hs
            cases hf : env.fault (.restoreRead .recover i) <;> simp [preImage, hb, hl, hf]
          simp only [Option.some.injEq, exists_eq_left', Bool.or_eq_true, decide_eq_true_eq,
            Bool.and_eq_true]
          rw [hpre] at h
          cases hf : env.fault (.restoreRead .recover i) with
          | some e =>
              simp only [hf] at h
              rw [Tree.content_eq_of_node_eq h]
              simp
          | none =>
              simp only [hf] at h
              by_cases hw : restoreWritable env .recover i t op.path = true
              · rw [if_pos hw] at h
                rw [Tree.content_eq_some.mpr h]
                simp [hw]
              · rw [if_neg hw] at h
                rw [Tree.content_eq_of_node_eq h]
                simp [hw]

/-! ## The actions -/

/-- The manual rollback undoes every operation of the journal found. -/
theorem recover_rollback_run {w : World} {m : Migration}
    (hm : w.store.migrations.get migrationID = some m) (hl : env.lockError = none)
    (hops : PathsApart w.journaledOps) :
    ∃ (t : Tree String Bytes) (j : StoredApplyJournal) (message : String),
      RolledBack env .recover 0 w.preImages w.journaledOps w.live t ∧
      ((recoverMigration env migrationID "rollback").run w).final =
        ((w.setLive t).putJournal j).tryState migrationID .readyForReview none ∧
      ((recoverMigration env migrationID "rollback").run w).result =
        .ok ⟨"rollback", migrationID, .readyForReview, message, j⟩ := by
  obtain ⟨t, hfin, hres, hback, -⟩ := forDown_restoreOperation_run env .recover hops 0 w
  have hrun : (recoverMigration env migrationID "rollback").run w =
      (restoreOperations env .recover w.journaledOps >>= fun restored => do
        let journal := { w.journal.getD StoredApplyJournal.zero with
          operations := markRecovered w.journaledOps restored
          status := .rolledBack
          updatedAt := env.now }
        recordOutcome migrationID journal .readyForReview
        pure ⟨"rollback", migrationID, .readyForReview,
          "Pre-images successfully restored. Migration reset to ready_for_review.",
          journal⟩).run w := by
    simp [recoverMigration, hm, hl, World.journaledOps]
  rw [hrun, restoreOperations, Prog.run_bind_ok hres, hfin]
  generalize (w.journaledOps.zipIdx.map _) = restored
  obtain ⟨hf, hr, -⟩ := recordOutcome_run migrationID { w.journal.getD StoredApplyJournal.zero with
    operations := markRecovered w.journaledOps restored
    status := .rolledBack
    updatedAt := env.now } .readyForReview (w.setLive t)
  dsimp only
  rw [Prog.run_bind_ok hr, hf]
  exact ⟨t, _, _, hback, rfl, rfl⟩

theorem stateOf_recorded {w : World} {t : Tree String Bytes} {j : StoredApplyJournal}
    {state : MigrationState} (h : w.stateOf migrationID = some state) :
    (((w.setLive t).putJournal j).tryState migrationID .readyForReview none).stateOf migrationID =
      some .readyForReview ↔ w.mayReview migrationID = true := by
  have hj : ((w.setLive t).putJournal j).stateOf migrationID = some state := by
    rw [World.stateOf_putJournal, World.stateOf_setLive, h]
  rw [World.stateOf_tryState hj]
  simp only [World.mayReview, h]
  by_cases hv : isValidStateTransition state .readyForReview = true
  · simp [hv]
  · simp only [if_neg hv]
    refine iff_of_false (fun he => hv ?_) hv
    rw [Option.some.inj he]
    rfl

/-- A recovery that reports success tells the truth exactly when the transition
table lets the state follow and, for a rollback, every operation is undoable. -/
theorem recover_truthful_iff {w : World} (hops : PathsApart w.journaledOps) {action : String}
    {r : RecoveryResult} (hr : ((recoverMigration env migrationID action).run w).result = .ok r) :
    Truthful env migrationID w ((recoverMigration env migrationID action).run w).final r ↔
      reportsTruth env migrationID action w = true := by
  cases hm : w.store.migrations.get migrationID with
  | none => simp [recoverMigration, hm] at hr
  | some mig =>
      have hstate : w.stateOf migrationID = some mig.state := by
        simp [World.stateOf, Store.stateOf, hm]
      by_cases hroll : action = "rollback"
      · subst hroll
        cases hl : env.lockError with
        | some e => simp [recoverMigration, hm, hl] at hr
        | none =>
            obtain ⟨t, j, message, hback, hfin, hres⟩ := recover_rollback_run hm hl hops
            rw [hres] at hr
            cases hr
            rw [hfin]
            have hput : ∀ x ∈ w.journaledOps.zipIdx, PutBack w.preImages t x.1 ↔
                undoable env x.2 w.preImages w.live x.1 = true :=
              fun x hx => putBack_iff (hback.restored x hx)
            simp only [reportsTruth, if_true, Bool.and_eq_true, List.all_eq_true,
              ← stateOf_recorded (t := t) (j := j) hstate]
            constructor
            · rintro ⟨hs, hb, -⟩
              refine ⟨hs, fun x hx => (hput x hx).mp ?_⟩
              simpa using hb rfl x.1 (List.fst_mem_of_mem_zipIdx hx)
            · rintro ⟨hs, hb⟩
              refine ⟨hs, fun _ op hop => ?_, by simp⟩
              obtain ⟨k, hk⟩ := exists_index hop 0
              simpa using (hput _ hk).mpr (hb _ hk)
      · by_cases hres : action = "resolve"
        · subst hres
          have hrec := recordOutcome_run migrationID { w.journal.getD StoredApplyJournal.zero with
            status := .resolved, updatedAt := env.now } .readyForReview w
          have hrun : (recoverMigration env migrationID "resolve").run w =
              (recordOutcome migrationID { w.journal.getD StoredApplyJournal.zero with
                status := .resolved, updatedAt := env.now } .readyForReview >>= fun _ =>
              pure ⟨"resolve", migrationID, .readyForReview,
                "Migration marked resolved. State reset to ready_for_review.",
                { w.journal.getD StoredApplyJournal.zero with
                  status := .resolved, updatedAt := env.now }⟩).run w := by
            simp [recoverMigration, hm]
          rw [hrun, Prog.run_bind_ok hrec.2.1, hrec.1] at hr ⊢
          cases hr
          have hreport : reportsTruth env migrationID "resolve" w = w.mayReview migrationID := by
            simp [reportsTruth]
          rw [hreport, ← stateOf_recorded (t := w.live) hstate]
          exact ⟨fun h => h.status, fun h => ⟨h, by simp, by simp⟩⟩
        · have hreport : reportsTruth env migrationID action w = true := by
            simp [reportsTruth, hroll, hres]
          rw [hreport]
          refine iff_of_true ?_ rfl
          by_cases hretry : action = "retry"
          · subst hretry
            have hrun : (recoverMigration env migrationID "retry").run w =
                (Prog.attempt (applyRevision env migrationID mig.activeRevisionID "") >>= fun x =>
                  match x with
                  | .error e => Prog.fail ("retry apply: " ++ e)
                  | .ok () => pure ⟨"retry", migrationID, .applied,
                      "Migration apply retried and succeeded.",
                      w.journal.getD StoredApplyJournal.zero⟩).run w := by
              simp [recoverMigration, hm]
            rw [hrun, Prog.run_attempt_bind] at hr ⊢
            cases happ : ((applyRevision env migrationID mig.activeRevisionID "").run w).result with
            | error e => simp [happ] at hr
            | ok u =>
                simp only [happ] at hr ⊢
                cases hr
                obtain ⟨plan, ops, hprep, hphase⟩ := applyRevision_ok happ
                obtain ⟨j, hj, hjof⟩ := hphase.journal
                refine ⟨hphase.state, by simp, fun _ => ⟨hphase.state, j, hj, hjof.status,
                  fun op hop => ?_⟩⟩
                obtain ⟨op', hop', hpath⟩ := List.mem_map.mp
                  (hjof.paths.subset (List.mem_map_of_mem hop))
                have hc := hphase.content (by intro h; cases h) op' hop' _ rfl
                rw [(prepareApply_ok hprep).1.newContent hop', hpath] at hc
                rw [hjof.commitHash]
                exact hc
          · by_cases hins : action = "" ∨ action = "inspect"
            · have hrun : (recoverMigration env migrationID action).run w =
                  ⟨[], w, .ok ⟨"inspect", migrationID, mig.state,
                    inspectMessage migrationID mig.state w.journal,
                    w.journal.getD StoredApplyJournal.zero⟩⟩ := by
                rcases hins with rfl | rfl <;> simp [recoverMigration, hm]
              rw [hrun] at hr ⊢
              cases hr
              exact ⟨hstate, by simp, by simp⟩
            · push Not at hins
              simp [recoverMigration, hm, hins.1, hins.2, hroll, hretry, hres] at hr

end Openlia.Operator
