import Openlia.Operator.Migration.Recover

/-! # What an apply and a recovery keep

Apply and recovery touch the store only by updates of the state, and a journal
only by one whose operations lie apart. A property that survives these writes
survives every crash point of both.
-/

namespace Openlia.Operator

open Lib Crash

variable {env : Env} {migrationID : String} {I : World → Prop}

/-- A property that the writes of an apply do not break. -/
structure Stable (migrationID : String) (I : World → Prop) : Prop where
  apart : ∀ w, I w → PathsApart w.journaledOps
  live : ∀ w t, I w → I (w.setLive t)
  saved : ∀ w files dir, I w → I { w with preImages := files, applyDir := dir }
  state : ∀ w state, I w → I (w.tryState migrationID state none)
  journal : ∀ w j, I w → PathsApart j.operations → I (w.putJournal j)

/-! ## Single writes -/

theorem PathsApart.of_sublist {ops ops' : List ApplyOperation} (h : PathsApart ops)
    (hsub : (ops'.map ApplyOperation.path).Sublist (ops.map ApplyOperation.path)) :
    PathsApart ops' := by
  have hpw : (ops.map ApplyOperation.path).Pairwise Apart := List.pairwise_map.mpr h
  exact List.pairwise_map.mp (hpw.sublist hsub)

theorem markRecovered_paths (ops : List ApplyOperation) (restored : List Bool) :
    ((markRecovered ops restored).map ApplyOperation.path).Sublist
      (ops.map ApplyOperation.path) := by
  induction ops generalizing restored with
  | nil => simp [markRecovered]
  | cons op ops ih =>
      cases restored with
      | nil => simp [markRecovered]
      | cons ok restored => simpa [markRecovered] using ih restored

namespace Stable

variable (h : Stable migrationID I)
include h

theorem writeLive (t : Tree String Bytes) :
    Preserves I (Prog.write fun w => w.setLive t : Action Unit) :=
  Preserves.write fun w hw => h.live w t hw

theorem updateMigrationState (state : MigrationState) :
    Preserves I (updateMigrationState migrationID state none) :=
  fun w hw => updateMigrationState_keeps (h.state w state hw)

theorem writeJournal {j : StoredApplyJournal} (hj : PathsApart j.operations) :
    Preserves I (writeJournal j) := by
  intro w hw
  have hfin : ((Operator.writeJournal j).run w).final = w.putJournal j :=
    ignore_writeJournal_final j w
  refine ⟨fun x hx => ?_, hfin ▸ h.journal w j hw hj⟩
  rw [ignore_writeJournal_trail hx]
  exact h.journal w j hw hj

theorem recordOutcome {j : StoredApplyJournal} (hj : PathsApart j.operations)
    (state : MigrationState) : Preserves I (recordOutcome migrationID j state) :=
  Preserves.bind (h.writeJournal hj).ignore fun _ => (h.updateMigrationState state).ignore

theorem atomicWriteFile (fault : Option String) (p : Path) (data : Bytes) :
    Preserves I (atomicWriteFile fault p data) := by
  refine Preserves.bind Preserves.get fun w => ?_
  cases fault with
  | some e => exact Preserves.fail e
  | none =>
      dsimp only
      cases w.live.writeFile p data with
      | error e => exact Preserves.fail _
      | ok t => exact h.writeLive t

theorem removeFile (fault : Option String) (p : Path) : Preserves I (removeFile fault p) := by
  refine Preserves.bind Preserves.get fun w => ?_
  cases fault with
  | some e => exact Preserves.fail e
  | none =>
      dsimp only
      cases w.live.remove p with
      | error e => exact Preserves.fail _
      | ok t => exact h.writeLive t

/-! ## The rollback loops -/

theorem restoreOperations (stage : Stage) (ops : List ApplyOperation) :
    Preserves I (restoreOperations env stage ops) := by
  refine Preserves.forDown fun i op _ => ?_
  refine Preserves.bind Preserves.get fun w => ?_
  by_cases he : op.existedBefore = true
  · rw [if_pos he]
    cases preImage env stage i w.preImages op with
    | error e => exact Preserves.pure false
    | ok data =>
        exact Preserves.bind (h.atomicWriteFile _ _ _).ignore fun _ => Preserves.pure true
  · rw [if_neg he]
    exact Preserves.bind (h.removeFile _ _).ignore fun _ => Preserves.pure true

theorem reconcileInterruptedApply :
    Preserves I (reconcileInterruptedApply env migrationID) := by
  refine Preserves.get_bind fun w hw => ?_
  have hfrom : ∀ p : Action Unit, Preserves I p → Spec (· = w) p I fun _ t => I t :=
    fun p hp => hp.conseq (fun _ hs => hs ▸ hw) (fun _ hs => hs) fun _ _ hs => hs
  refine hfrom _ ?_
  cases hj : w.journal with
  | none => exact Preserves.pure ()
  | some j =>
      have hops : PathsApart j.operations := by
        have hap := h.apart w hw
        simpa [World.journaledOps, hj] using hap
      refine Preserves.ite (fun _ => ?_) fun _ => Preserves.pure ()
      refine Preserves.bind (h.restoreOperations .reconcile j.operations) fun restored => ?_
      have hmarked : PathsApart (markRestored j.operations restored) :=
        hops.of_sublist (markRestored_paths j.operations restored)
      refine Preserves.ite (fun _ => ?_) fun _ => ?_
      · exact h.recordOutcome hmarked .readyForReview
      · exact Preserves.bind (h.recordOutcome hmarked .recoveryRequired) fun _ =>
          Preserves.fail _

/-! ## The apply -/

theorem of_seeds {α : Type} {p : Action α} (hp : Seeds p) : Preserves I p := by
  intro w hw
  obtain ⟨⟨t, hf, -⟩, htr⟩ := hp w
  refine ⟨fun x hx => ?_, ?_⟩
  · obtain ⟨t', rfl, -⟩ := htr x hx
    exact h.live w t' hw
  · rw [hf]
    exact h.live w t hw

theorem staleCheck (files : List ChangedFileEntry) :
    Preserves I (staleCheck env migrationID files) := by
  induction files with
  | nil => exact Preserves.pure ()
  | cons f rest ih =>
      refine Preserves.bind Preserves.get fun w => ?_
      cases staleCheckFile env w.live f with
      | error x =>
          exact Preserves.bind (h.updateMigrationState x.1).ignore fun _ => Preserves.fail _
      | ok u => exact ih

theorem savePreImage (i : Nat) (p : Path) (data : Bytes) :
    Preserves I (savePreImage env i p data) := by
  unfold Operator.savePreImage
  cases env.fault (.preImage i) with
  | some e => exact Preserves.fail _
  | none => exact Preserves.write fun w hw => h.saved w _ _ hw

theorem prepareOperation (i : Nat) (f : ChangedFileEntry) :
    Preserves I (prepareOperation env i f) := by
  refine Preserves.bind Preserves.get fun w => ?_
  have hsave : ∀ (data : Bytes) (op : ApplyOperation),
      Preserves I (Operator.savePreImage env i f.path data >>= fun _ => pure op) := fun data op =>
    Preserves.bind (h.savePreImage i f.path data) fun _ => Preserves.pure op
  cases f.status <;> cases w.live.readFile f.path
  all_goals first
    | exact Preserves.fail _
    | exact Preserves.pure _
    | exact hsave _ _

theorem prepareOperations (files : List ChangedFileEntry) :
    Preserves I (prepareOperations env files) := by
  have hfrom : ∀ i, Preserves I (prepareOperationsFrom env i files) := by
    induction files with
    | nil => exact fun i => Preserves.pure []
    | cons f rest ih =>
        intro i
        refine Preserves.bind (h.prepareOperation i f) fun op => ?_
        exact Preserves.bind (ih (i + 1)) fun ops => Preserves.pure _
  exact Preserves.bind (Preserves.write fun w hw => h.saved w _ _ hw) fun _ => hfrom 0

theorem prepareApply (revisionID expectedPatchHash : String) :
    Preserves I (prepareApply env migrationID revisionID expectedPatchHash) := by
  unfold Operator.prepareApply
  cases env.lockError with
  | some e => exact Preserves.fail _
  | none =>
      refine Preserves.bind h.reconcileInterruptedApply.attempt fun r => ?_
      cases r with
      | error e => exact Preserves.fail _
      | ok u =>
          refine Preserves.bind Preserves.get fun w => ?_
          cases checkRevision env migrationID w.store revisionID expectedPatchHash with
          | error e => exact Preserves.fail _
          | ok plan =>
              refine Preserves.bind (h.of_seeds (seedFeatures_seeds env _)) fun _ => ?_
              refine Preserves.bind (h.staleCheck plan.changedFiles) fun _ => ?_
              exact Preserves.bind (h.prepareOperations plan.changedFiles) fun ops =>
                Preserves.pure _

theorem applyOperation (commitHash : String) (i : Nat) (op : ApplyOperation) :
    Preserves I (applyOperation env commitHash i op) := by
  intro w hw
  obtain ⟨t, hf, -, htr, -⟩ := applyOperation_run env commitHash i op w
  refine ⟨fun x hx => ?_, ?_⟩
  · obtain ⟨t', rfl, -⟩ := htr x hx
    exact h.live w t' hw
  · rw [hf]
    exact h.live w t hw

theorem applyOperations (commitHash : String) (i : Nat) (ops : List ApplyOperation) :
    Preserves I (applyOperations env commitHash i ops) := by
  induction ops generalizing i with
  | nil => exact Preserves.pure _
  | cons op rest ih =>
      refine Preserves.bind (h.applyOperation commitHash i op).attempt fun r => ?_
      cases r with
      | error e => exact Preserves.pure _
      | ok u => exact Preserves.bind (ih (i + 1)) fun x => Preserves.pure _

theorem executeApply (plan : ApplyPlan) {ops : List ApplyOperation} (hops : PathsApart ops) :
    Preserves I (executeApply env migrationID plan ops) := by
  unfold Operator.executeApply
  cases env.fault .journal with
  | some e => exact Preserves.fail _
  | none =>
      refine Preserves.bind (h.writeJournal hops).attempt fun r => ?_
      cases r with
      | error e => exact Preserves.fail _
      | ok u =>
          refine Preserves.bind (h.updateMigrationState .applying).attempt fun r => ?_
          cases r with
          | error e => exact Preserves.fail _
          | ok u =>
              refine Preserves.bind (h.applyOperations _ 0 _) fun x => ?_
              obtain ⟨n, err⟩ := x
              cases err with
              | none =>
                  refine h.recordOutcome ?_ .applied
                  refine hops.of_sublist ?_
                  simp [appliedJournal, newJournal, Function.comp_def]
              | some e =>
                  refine Preserves.bind (h.updateMigrationState .rollingBack).ignore fun _ => ?_
                  refine Preserves.bind (h.restoreOperations .apply _) fun restored => ?_
                  have hmarked := hops.of_sublist (markRestored_append_drop ops n restored)
                  refine Preserves.ite (fun _ => ?_) fun _ => ?_
                  · exact Preserves.bind (h.recordOutcome hmarked .readyForReview) fun _ =>
                      Preserves.fail _
                  · exact Preserves.bind (h.recordOutcome hmarked .recoveryRequired) fun _ =>
                      Preserves.fail _

/-- Every crash point of an apply keeps a stable property. -/
theorem applyRevision (revisionID expectedPatchHash : String) :
    Preserves I (applyRevision env migrationID revisionID expectedPatchHash) := by
  intro w hw
  have hprep : Preserves I (Operator.prepareApply env migrationID revisionID expectedPatchHash) :=
    h.prepareApply revisionID expectedPatchHash
  replace hprep := hprep w hw
  cases hr : ((Operator.prepareApply env migrationID revisionID expectedPatchHash).run w).result with
  | error e =>
      rw [Operator.applyRevision, Prog.run_bind_error hr]
      exact hprep
  | ok x =>
      obtain ⟨plan, ops⟩ := x
      rw [Operator.applyRevision, Prog.run_bind_ok hr]
      have hops := (prepareApply_ok hr).1.ready.apart
      have hexec : Preserves I (Operator.executeApply env migrationID plan ops) :=
        h.executeApply plan hops
      replace hexec := hexec _ hprep.2
      refine ⟨fun x hx => ?_, hexec.2⟩
      rcases List.mem_append.mp hx with hx | hx
      · exact hprep.1 x hx
      · exact hexec.1 x hx

/-- Every crash point of a recovery keeps a stable property. -/
theorem recoverMigration (action : String) :
    Preserves I (recoverMigration env migrationID action) := by
  refine Preserves.get_bind fun w hw => ?_
  have hops := h.apart w hw
  have hfrom : ∀ p : Action RecoveryResult, Preserves I p → Spec (· = w) p I fun _ t => I t :=
    fun p hp => hp.conseq (fun _ hs => hs ▸ hw) (fun _ hs => hs) fun _ _ hs => hs
  refine hfrom _ ?_
  cases w.store.migrations.get migrationID with
  | none => exact Preserves.fail _
  | some mig =>
      refine Preserves.ite (fun _ => Preserves.pure _) fun _ => ?_
      refine Preserves.ite (fun _ => ?_) fun _ => ?_
      · cases env.lockError with
        | some e => exact Preserves.fail _
        | none =>
            refine Preserves.bind (h.restoreOperations .recover _) fun restored => ?_
            refine Preserves.bind (h.recordOutcome ?_ .readyForReview) fun _ => Preserves.pure _
            exact hops.of_sublist (markRecovered_paths _ restored)
      · refine Preserves.ite (fun _ => ?_) fun _ => ?_
        · refine Preserves.bind (h.applyRevision _ _).attempt fun r => ?_
          cases r with
          | error e => exact Preserves.fail _
          | ok u => exact Preserves.pure _
        · refine Preserves.ite (fun _ => ?_) fun _ => Preserves.fail _
          refine Preserves.bind (h.recordOutcome ?_ .readyForReview) fun _ => Preserves.pure _
          exact hops

end Stable

end Openlia.Operator
