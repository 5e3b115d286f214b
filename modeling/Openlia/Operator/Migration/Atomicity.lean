import Openlia.Operator.Migration.CrashRecovery

/-! # Atomicity of an apply

An apply starts by reconciling an interrupted one and by seeding the features
of the revision. On the workspace that leaves it is atomic: it changes the
files of the revision and no others, or it changes no file.
-/

namespace Openlia.Operator

open Lib Crash

variable {env : Env} {migrationID : String} {plan : ApplyPlan}

/-- The workspace an apply prepares its operations on. Without the lock nothing
ran, and features are seeded for a revision that passed its checks. -/
def preparedWorkspace (env : Env) (migrationID : String) (w : World)
    (revisionID expectedPatchHash : String) : Tree String Bytes :=
  let reconciled := (reconcileInterruptedApply env migrationID).run w
  match env.lockError, reconciled.result with
  | some _, _ => w.live
  | none, .error _ => reconciled.final.live
  | none, .ok () =>
      match checkRevision env migrationID reconciled.final.store revisionID expectedPatchHash with
      | .error _ => reconciled.final.live
      | .ok plan => ((seedFeatures env plan.changedFiles).run reconciled.final).final.live

theorem prepareOperations_live {files : List ChangedFileEntry}
    (hn : (files.map ChangedFileEntry.path).Nodup) (w : World) :
    ((prepareOperations env files >>= fun ops => pure (plan, ops)).run w).final.live = w.live := by
  obtain ⟨saved, hfin, -⟩ := prepareOperationsFrom_run env hn 0
    ({ w with preImages := ∅, applyDir := true } : World)
  have hrun : ((prepareOperations env files).run w).final.live = w.live := by
    simp only [prepareOperations, Prog.run_write_bind, hfin]
    rfl
  cases hres : ((prepareOperations env files).run w).result with
  | error e => rw [Prog.run_bind_error hres, hrun]
  | ok ops => rw [Prog.run_bind_ok hres, ← hrun]; rfl

/-- The preparation leaves the workspace so, whatever its answer. -/
theorem prepareApply_live (w : World) (revisionID expectedPatchHash : String) :
    ((prepareApply env migrationID revisionID expectedPatchHash).run w).final.live =
      preparedWorkspace env migrationID w revisionID expectedPatchHash := by
  simp only [prepareApply, preparedWorkspace]
  cases hl : env.lockError with
  | some e => rfl
  | none =>
      simp only [Prog.run_attempt_bind]
      cases hrec : ((reconcileInterruptedApply env migrationID).run w).result with
      | error e => rfl
      | ok u =>
          simp only [Prog.run_get_bind]
          generalize ((reconcileInterruptedApply env migrationID).run w).final = x
          cases hcheck : checkRevision env migrationID x.store revisionID expectedPatchHash with
          | error e => rfl
          | ok plan =>
              simp only
              cases hseed : ((seedFeatures env plan.changedFiles).run x).result with
              | error e => rw [Prog.run_bind_error hseed]
              | ok u =>
                  rw [Prog.run_bind_ok hseed]
                  generalize ((seedFeatures env plan.changedFiles).run x).final = y
                  rcases staleCheck_run env migrationID plan.changedFiles y with
                    ⟨hrun, -⟩ | ⟨message, state, hr, hfin, -⟩
                  · obtain ⟨mig, a, b, -, -, -, hfiles⟩ := (checkRevision_ok hcheck).commits
                    have hn := changesBetween_paths_nodup env.sha256 a.snapshot b.snapshot
                    rw [← hfiles] at hn
                    rw [Prog.run_bind_ok (by rw [hrun]), hrun]
                    exact prepareOperations_live hn y
                  · rw [Prog.run_bind_error hr, hfin, World.tryState_live]

/-- The plan of a preparation that succeeds passed the checks on the reconciled store. -/
theorem prepareApply_checked {w : World} {revisionID expectedPatchHash : String}
    {ops : List ApplyOperation}
    (h : ((prepareApply env migrationID revisionID expectedPatchHash).run w).result =
      .ok (plan, ops)) :
    checkRevision env migrationID ((reconcileInterruptedApply env migrationID).run w).final.store
      revisionID expectedPatchHash = .ok plan := by
  simp only [prepareApply] at h
  cases hl : env.lockError with
  | some e => simp [hl] at h
  | none =>
      simp only [hl, Prog.run_attempt_bind] at h
      cases hrec : ((reconcileInterruptedApply env migrationID).run w).result with
      | error e => simp [hrec] at h
      | ok u =>
          simp only [hrec, Prog.run_get_bind] at h
          generalize ((reconcileInterruptedApply env migrationID).run w).final = x at h ⊢
          cases hcheck : checkRevision env migrationID x.store revisionID expectedPatchHash with
          | error e => simp [hcheck] at h
          | ok plan' =>
              simp only [hcheck] at h
              obtain ⟨-, -, h₁, -⟩ := Prog.run_bind_eq_ok h
              obtain ⟨-, -, h₂, -⟩ := Prog.run_bind_eq_ok h₁
              obtain ⟨ops', -, h₃, -⟩ := Prog.run_bind_eq_ok h₂
              cases h₃
              rfl

/-- Without an interrupted apply, what was in the workspace is still there. -/
theorem preparedWorkspace_seeded {w : World}
    (h : ∀ j, w.journal = some j → j.status.interrupted = false)
    (revisionID expectedPatchHash : String) :
    Seeded w.live (preparedWorkspace env migrationID w revisionID expectedPatchHash) := by
  simp only [preparedWorkspace, reconcile_of_not_interrupted h]
  cases env.lockError with
  | some e => exact Seeded.refl _
  | none =>
      dsimp only
      split
      · exact Seeded.refl _
      · rename_i plan _
        obtain ⟨⟨t, hfin, hseed⟩, -⟩ := seedFeatures_seeds env plan.changedFiles w
        rw [hfin]
        exact hseed

/-! ## All or nothing -/

/-- An apply changed exactly the files of its revision, or no file. A failed
rollback ends in `recovery_required`. -/
structure AppliesAtomically (env : Env) (migrationID revisionID expectedPatchHash : String)
    (w : World) (start : Tree String Bytes) : Prop where
  applied :
    ((applyRevision env migrationID revisionID expectedPatchHash).run w).result = .ok () →
    ∃ plan, checkRevision env migrationID
        ((reconcileInterruptedApply env migrationID).run w).final.store revisionID
        expectedPatchHash = .ok plan ∧
      (∀ f ∈ plan.changedFiles,
        ((applyRevision env migrationID revisionID expectedPatchHash).run w).final.live.content
          f.path = revisionContent env plan.revision.commitHash f.path) ∧
      ∀ p, (∀ f ∈ plan.changedFiles, f.path ≠ p) →
        ((applyRevision env migrationID revisionID expectedPatchHash).run w).final.live.content p =
          start.content p
  failed : ∀ e,
    ((applyRevision env migrationID revisionID expectedPatchHash).run w).result = .error e →
    ((applyRevision env migrationID revisionID expectedPatchHash).run w).final.stateOf
      migrationID ≠ some .recoveryRequired →
    ∀ p, ((applyRevision env migrationID revisionID expectedPatchHash).run w).final.live.content p =
      start.content p

/-- A settled phase decides every path: the operations' files by its content,
the others are as they were. -/
theorem InPhase.content_eq {commitHash : String} {ops : List ApplyOperation} {w x : World}
    {phase : ApplyPhase} (h : InPhase env migrationID commitHash ops w phase x)
    (hw : env.RollbackWrites)
    (hs : ∀ op, phase.content env commitHash w.live op = some (w.live.content op.path))
    (p : Path) : x.live.content p = w.live.content p := by
  by_cases hp : ∃ op ∈ ops, op.path = p
  · obtain ⟨op, hop, rfl⟩ := hp
    exact h.content (fun _ => hw) op hop _ (hs op)
  · exact h.grown.content fun op hop he => hp ⟨op, hop, he⟩

/-- An apply is atomic over the workspace it prepares its operations on, as
long as its rollback can write. -/
theorem applyRevision_atomic (hw : env.RollbackWrites) (w : World)
    (revisionID expectedPatchHash : String) :
    AppliesAtomically env migrationID revisionID expectedPatchHash w
        (preparedWorkspace env migrationID w revisionID expectedPatchHash) ∧
      ((∀ j, w.journal = some j → j.status.interrupted = false) →
        Seeded w.live (preparedWorkspace env migrationID w revisionID expectedPatchHash)) := by
  refine ⟨⟨fun hok => ?_, fun e herr hstate p => ?_⟩,
    fun h => preparedWorkspace_seeded h revisionID expectedPatchHash⟩
  · obtain ⟨plan, ops, hprep, hphase⟩ := applyRevision_ok hok
    have hprepared := (prepareApply_ok hprep).1
    refine ⟨plan, prepareApply_checked hprep, fun f hf => ?_, fun p hp => ?_⟩
    · have hop : preparedOperation
          ((prepareApply env migrationID revisionID expectedPatchHash).run w).final.live f ∈ ops := by
        rw [hprepared.ops_eq]
        exact List.mem_map_of_mem hf
      exact (hphase.content (by intro h; cases h) _ hop _ rfl).trans (hprepared.newContent hop)
    · rw [← prepareApply_live]
      refine hphase.grown.content fun op hop => ?_
      rw [hprepared.ops_eq] at hop
      obtain ⟨f, hf, rfl⟩ := List.mem_map.mp hop
      exact hp f hf
  · rw [← prepareApply_live]
    cases hprep : ((prepareApply env migrationID revisionID expectedPatchHash).run w).result with
    | error e' => rw [applyRevision, Prog.run_bind_error hprep]
    | ok x =>
        obtain ⟨plan, ops⟩ := x
        have hprepared := (prepareApply_ok hprep).1
        rw [applyRevision, Prog.run_bind_ok hprep] at herr hstate ⊢
        obtain ⟨-, hend⟩ := executeApply_run env plan hprepared.ready hprepared.applyDir
          hprepared.state
        dsimp only at herr hstate ⊢
        rcases hend with ⟨msg, -, hfin⟩ | ⟨phase, hphase, ⟨hok, -⟩ | ⟨msg, -, hreset | hreq⟩⟩
        · rw [hfin]
        · rw [hok] at herr
          cases herr
        · subst hreset
          exact hphase.content_eq hw (fun _ => rfl) p
        · rw [hreq.1] at hphase
          exact absurd hphase.state hstate

theorem applyRevision_atomic_note :
    AppliesAtomically noteEnv "mig-1" "" "" noteWorld
        (preparedWorkspace noteEnv "mig-1" noteWorld "" "") ∧
      ((∀ j, noteWorld.journal = some j → j.status.interrupted = false) →
        Seeded noteWorld.live (preparedWorkspace noteEnv "mig-1" noteWorld "" "")) :=
  applyRevision_atomic (fun _ => ⟨rfl, rfl⟩) noteWorld "" ""

/-- The note's environment with a feature that owns the directory `notes`. -/
def noteSeedEnv : Env :=
  { noteEnv with
    repositoryRoot := "/repo"
    detectFeatures := fun _ => .ok ["notes"]
    featureSteps := fun _ => [.ensureDir ["notes"], .copyOnce ["notes", "README.md"] [35]] }

/-- Against the workspace before the call an apply is not atomic: it seeds
files, and it reconciles an interrupted apply before it fails. -/
theorem apply_seeds_and_reconciles :
    ¬ AppliesAtomically noteSeedEnv "mig-1" "" "" noteWorld noteWorld.live ∧
      ∃ x ∈ noteCrashes, ¬ AppliesAtomically noteEnv "mig-1" "" "" x x.live := by
  constructor
  · intro h
    obtain ⟨plan, hcheck, -, hother⟩ := h.applied rfl
    have hplan : checkRevision noteSeedEnv "mig-1" noteWorld.store "" "" = .ok notePlan := rfl
    obtain rfl : notePlan = plan := Except.ok.inj (hplan.symm.trans hcheck)
    have hseeded : ((applyRevision noteSeedEnv "mig-1" "" "").run noteWorld).final.live.content
        ["notes", "README.md"] = some [35] := rfl
    have hkept := hother ["notes", "README.md"] (by decide)
    rw [hseeded] at hkept
    cases hkept
  · obtain ⟨x, hx, hwrote, e, herr, hstate, hgone⟩ : ∃ x, noteCrashes[3]? = some x ∧
        x.live.content ["notes", "a.md"] = some [104, 105] ∧ ∃ e,
        ((applyRevision noteEnv "mig-1" "" "").run x).result = .error e ∧
        ((applyRevision noteEnv "mig-1" "" "").run x).final.stateOf "mig-1" = some .applying ∧
        ((applyRevision noteEnv "mig-1" "" "").run x).final.live.content ["notes", "a.md"] =
          none := ⟨_, rfl, rfl, _, rfl, rfl, rfl⟩
    refine ⟨x, List.mem_of_getElem? hx, fun h => ?_⟩
    have hkept := h.failed e herr (by rw [hstate]; simp) ["notes", "a.md"]
    rw [hgone, hwrote] at hkept
    cases hkept

end Openlia.Operator
