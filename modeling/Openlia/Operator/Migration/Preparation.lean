import Openlia.Operator.Migration.Apply
import Openlia.Operator.Migration.Execution

/-! # What the preparation of an apply leaves

The checks decide, seeding adds what was absent, and the operations that come
out name files apart from each other with their pre-images saved.
-/

namespace Openlia.Operator

open Lib Crash

variable {env : Env} {migrationID : String}

/-! ## The checks -/

/-- What a plan that passed the checks says about the store and the repository. -/
structure PlanOk (env : Env) (migrationID : String) (s : Store) (plan : ApplyPlan) : Prop where
  state : s.stateOf migrationID = some .readyForReview
  commits : ∃ mig a b, s.migrations.get migrationID = some mig ∧
    env.repo.commit mig.baselineManifest = some a ∧
    env.repo.commit plan.revision.commitHash = some b ∧
    plan.changedFiles = changesBetween env.sha256 a.snapshot b.snapshot

theorem checkRevision_ok {s : Store} {revisionID expectedPatchHash : String} {plan : ApplyPlan}
    (h : checkRevision env migrationID s revisionID expectedPatchHash = .ok plan) :
    PlanOk env migrationID s plan := by
  unfold checkRevision at h
  cases hm : s.migrations.get migrationID with
  | none => simp [hm] at h
  | some mig =>
      simp only [hm] at h
      split at h
      · cases h
      · rename_i hstate
        split at h
        · cases h
        · split at h
          · cases h
          · split at h
            · cases h
            · split at h
              · cases h
              · split at h
                · cases h
                · split at h
                  · cases h
                  · split at h
                    · cases h
                    · split at h
                      · cases h
                      · split at h
                        · cases h
                        · rename_i changedFiles hfiles
                          cases h
                          refine ⟨by simpa [Store.stateOf, hm] using hstate, ?_⟩
                          unfold ProposalRepo.getChangedFiles at hfiles
                          split at hfiles
                          · rename_i a b ha hb
                            cases hfiles
                            exact ⟨mig, a, b, hm, ha, hb, rfl⟩
                          · cases hfiles

/-! ## Seeding -/

/-- Seeding only adds: what was there stays as it was. -/
def Seeded (t t' : Tree String Bytes) : Prop := ∀ p, t.node p ≠ none → t'.node p = t.node p

theorem Seeded.refl (t : Tree String Bytes) : Seeded t t := fun _ _ => rfl

theorem Seeded.trans {t t' t'' : Tree String Bytes} (h : Seeded t t') (h' : Seeded t' t'') :
    Seeded t t'' := by
  intro p hp
  have hp' := h p hp
  rw [← hp']
  exact h' p (by rw [hp']; exact hp)

theorem Seeded.content {t t' : Tree String Bytes} (h : Seeded t t') {p : Path} {d : Bytes}
    (hp : t.content p = some d) : t'.content p = some d := by
  have hn := Tree.content_eq_some.mp hp
  rw [Tree.content_eq_some, h p (by rw [hn]; simp), hn]

theorem seedStep_seeded {t t' : Tree String Bytes} {step : SeedStep}
    (h : seedStep t step = .ok t') : Seeded t t' := by
  cases step with
  | ensureDir p =>
      intro q hq
      rcases (Tree.mkdirAll_node h).2 q with hsame | ⟨hnone, -, -⟩
      · exact hsame
      · exact absurd hnone hq
  | copyOnce p data =>
      simp only [seedStep] at h
      split at h
      · cases h
        exact Seeded.refl _
      · rename_i hl
        intro q hq
        rw [Tree.put_node h]
        split
        · rename_i hqp
          subst hqp
          cases hn : t.node q with
          | none => exact absurd hn hq
          | some n =>
              rw [Tree.lstat_eq_ok.mpr hn] at hl
              cases hl
        · rfl
      · cases h

/-- Programs that change the workspace by seeding alone. -/
def Seeds {α : Type} (p : Action α) : Prop :=
  ∀ w, (∃ t, (p.run w).final = w.setLive t ∧ Seeded w.live t) ∧
    ∀ x ∈ (p.run w).trail, ∃ t, x = w.setLive t ∧ Seeded w.live t

theorem Seeds.bind {α β : Type} {p : Action α} {k : α → Action β} (hp : Seeds p)
    (hk : ∀ a, Seeds (k a)) : Seeds (p >>= k) := by
  intro w
  obtain ⟨⟨t, hf, ht⟩, htr⟩ := hp w
  cases hr : (p.run w).result with
  | error e =>
      rw [Prog.run_bind_error hr]
      exact ⟨⟨t, hf, ht⟩, htr⟩
  | ok a =>
      obtain ⟨⟨t', hf', ht'⟩, htr'⟩ := hk a (w.setLive t)
      rw [Prog.run_bind_ok hr, hf]
      refine ⟨⟨t', hf', ht.trans ht'⟩, fun x hx => ?_⟩
      rcases List.mem_append.mp hx with hx | hx
      · exact htr x hx
      · obtain ⟨t'', rfl, h⟩ := htr' x hx
        exact ⟨t'', rfl, ht.trans h⟩

theorem Seeds.pure {α : Type} (a : α) : Seeds (pure a : Action α) :=
  fun w => ⟨⟨w.live, rfl, Seeded.refl _⟩, by simp⟩

theorem featureInstall_seeds (steps : List SeedStep) : Seeds (featureInstall steps) := by
  induction steps with
  | nil => exact Seeds.pure ()
  | cons step rest ih =>
      intro w
      simp only [featureInstall, Prog.run_get_bind]
      cases hs : seedStep w.live step with
      | error e => exact ⟨⟨w.live, rfl, Seeded.refl _⟩, by simp⟩
      | ok t =>
          have ht := seedStep_seeded hs
          obtain ⟨⟨t', hf, ht'⟩, htr⟩ := ih (w.setLive t)
          simp only [Prog.run_write_bind, hf]
          refine ⟨⟨t', rfl, ht.trans ht'⟩, fun x hx => ?_⟩
          rcases List.mem_cons.mp hx with rfl | hx
          · exact ⟨t, rfl, ht⟩
          · obtain ⟨t'', rfl, h⟩ := htr x hx
            exact ⟨t'', rfl, ht.trans h⟩

variable (env) in
theorem seedFeatures_seeds (changedFiles : List ChangedFileEntry) :
    Seeds (seedFeatures env changedFiles) := by
  have hinstall : ∀ features, Seeds (installFeatures env features) := by
    intro features
    induction features with
    | nil => exact Seeds.pure ()
    | cons feature rest ih =>
        exact Seeds.bind (featureInstall_seeds (env.featureSteps feature)) fun _ => ih
  unfold seedFeatures
  split
  · split
    · exact Seeds.pure ()
    · exact hinstall _
  · exact Seeds.pure ()

/-! ## The stale check -/

/-- What the check leaves to be true of a changed file. -/
theorem staleCheckFile_ok {t : Tree String Bytes} {f : ChangedFileEntry}
    (h : staleCheckFile env t f = .ok ()) :
    validateSafeWorkspacePath t f.path = .ok () ∧
      (f.status = .added → t.node f.path = none) ∧
      (f.status ≠ .added → ∃ d, t.node f.path = some (.file d)) := by
  unfold staleCheckFile at h
  split at h
  · cases h
  · rename_i hv
    refine ⟨hv, fun hs => ?_, fun hs => ?_⟩
    · rw [hs] at h
      simp only at h
      split at h
      · cases h
      · rename_i hstat
        have hlink := (validateSafeWorkspacePath_ok hv).2.2.1
        cases hn : t.node f.path with
        | none => rfl
        | some n => cases n <;> simp_all [Tree.stat, Tree.lstat]
    · have hread : ∃ d, t.readFile f.path = .ok d := by
        cases hst : f.status with
        | added => exact absurd hst hs
        | modified =>
            rw [hst] at h
            simp only at h
            split at h
            · cases h
            · rename_i d hd
              exact ⟨d, hd⟩
        | deleted =>
            rw [hst] at h
            simp only at h
            split at h
            · cases h
            · cases h
            · rename_i d hd
              exact ⟨d, hd⟩
      obtain ⟨d, hd⟩ := hread
      exact ⟨d, Tree.content_eq_some.mp (Tree.readFile_eq_ok.mp hd)⟩

variable (env migrationID) in
/-- The loop passes and leaves everything as it was, or it sets a state and fails. -/
theorem staleCheck_run (files : List ChangedFileEntry) (w : World) :
    ((staleCheck env migrationID files).run w = ⟨[], w, .ok ()⟩ ∧
        ∀ f ∈ files, staleCheckFile env w.live f = .ok ()) ∨
      ∃ message state, ((staleCheck env migrationID files).run w).result = .error message ∧
        ((staleCheck env migrationID files).run w).final = w.tryState migrationID state none ∧
        (state = .failed ∨ state = .stale) ∧
        ∀ x ∈ ((staleCheck env migrationID files).run w).trail,
          x = w.tryState migrationID state none := by
  induction files with
  | nil => exact Or.inl ⟨rfl, by simp⟩
  | cons f rest ih =>
      simp only [staleCheck, Prog.run_get_bind]
      cases hf : staleCheckFile env w.live f with
      | ok u =>
          rcases ih with ⟨hrun, hrest⟩ | hfail
          · refine Or.inl ⟨hrun, fun g hg => ?_⟩
            rcases List.mem_cons.mp hg with rfl | hg
            · exact hf
            · exact hrest g hg
          · exact Or.inr hfail
      | error e =>
          obtain ⟨state, message⟩ := e
          right
          have hstate : state = .failed ∨ state = .stale := by
            unfold staleCheckFile at hf
            split at hf
            · cases hf
              exact Or.inl rfl
            · repeat' split at hf
              all_goals cases hf
              all_goals exact Or.inr rfl
          have hfin := ignore_updateMigrationState_final migrationID state none w
          refine ⟨message, state, rfl, ?_, hstate, fun x hx => ?_⟩
          · rw [← hfin]
            rfl
          · simp only [Prog.run_ignore_bind, Prog.run_fail, List.append_nil] at hx
            exact ignore_updateMigrationState_trail hx

/-! ## Operations -/

/-- The operation of a changed file, from what the file holds. -/
def preparedOperation (t : Tree String Bytes) (f : ChangedFileEntry) : ApplyOperation where
  type := if f.status = .deleted then .delete else .write
  path := f.path
  existedBefore := (t.content f.path).isSome
  oldHash := f.oldHash
  newHash := f.newHash
  backupPath := if (t.content f.path).isSome then some f.path else none
  status := .pending

def World.setPreImages (w : World) (files : PreImages) : World := { w with preImages := files }

variable (env) in
/-- A file's pre-image is saved under its path, or nothing is when there is no file. -/
theorem prepareOperation_run (i : Nat) (f : ChangedFileEntry) (w : World) :
    ∃ files : PreImages,
      ((prepareOperation env i f).run w).final = w.setPreImages files ∧
      (∀ x ∈ ((prepareOperation env i f).run w).trail, x = w.setPreImages files) ∧
      (∀ p, p ≠ f.path → files.lookup p = w.preImages.lookup p) ∧
      ∀ op, ((prepareOperation env i f).run w).result = .ok op →
        op = preparedOperation w.live f ∧ ∀ d, w.live.content f.path = some d →
          files.lookup f.path = some d := by
  simp only [prepareOperation, Prog.run_get_bind]
  cases hr : w.live.readFile f.path with
  | error e =>
      have hc : w.live.content f.path = none := by
        cases hc : w.live.content f.path with
        | none => rfl
        | some d =>
            rw [Tree.readFile_eq_ok.mpr hc] at hr
            cases hr
      cases hs : f.status with
      | deleted => exact ⟨w.preImages, rfl, by simp, fun _ _ => rfl, by simp⟩
      | added =>
          refine ⟨w.preImages, rfl, by simp, fun _ _ => rfl, fun op hop => ?_⟩
          cases hop
          simp [preparedOperation, hc, hs]
      | modified =>
          refine ⟨w.preImages, rfl, by simp, fun _ _ => rfl, fun op hop => ?_⟩
          cases hop
          simp [preparedOperation, hc, hs]
  | ok data =>
      have hc := Tree.readFile_eq_ok.mp hr
      have hsave : ∀ type : OpType, type = (if f.status = .deleted then .delete else .write) →
          ∃ files : PreImages,
            ((savePreImage env i f.path data >>= fun _ => (pure ⟨type, f.path, true, f.oldHash,
              f.newHash, some f.path, .pending⟩ : Action ApplyOperation)).run w).final =
                w.setPreImages files ∧
            (∀ x ∈ ((savePreImage env i f.path data >>= fun _ => (pure ⟨type, f.path, true,
              f.oldHash, f.newHash, some f.path, .pending⟩ : Action ApplyOperation)).run w).trail,
                x = w.setPreImages files) ∧
            (∀ p, p ≠ f.path → files.lookup p = w.preImages.lookup p) ∧
            ∀ op, ((savePreImage env i f.path data >>= fun _ => (pure ⟨type, f.path, true,
              f.oldHash, f.newHash, some f.path, .pending⟩ : Action ApplyOperation)).run w).result =
                .ok op → op = preparedOperation w.live f ∧ ∀ d, w.live.content f.path = some d →
                  files.lookup f.path = some d := by
        rintro type rfl
        unfold savePreImage
        cases env.fault (.preImage i) with
        | some e => exact ⟨w.preImages, rfl, by simp, fun _ _ => rfl, by simp⟩
        | none =>
            refine ⟨w.preImages.insert f.path data, rfl, by simp [World.setPreImages],
              fun p hp => AList.lookup_insert_ne hp, fun op hop => ?_⟩
            cases hop
            refine ⟨by simp [preparedOperation, hc], fun d hd => ?_⟩
            rw [hc] at hd
            obtain rfl := Option.some.inj hd
            exact AList.lookup_insert _
      cases hs : f.status with
      | deleted => exact hsave .delete (by rw [hs]; rfl)
      | added => exact hsave .write (by rw [hs]; rfl)
      | modified => exact hsave .write (by rw [hs]; rfl)

variable (env) in
theorem prepareOperationsFrom_run {files : List ChangedFileEntry}
    (hn : (files.map ChangedFileEntry.path).Nodup) (i : Nat) (w : World) :
    ∃ saved : PreImages,
      ((prepareOperationsFrom env i files).run w).final = w.setPreImages saved ∧
      (∀ x ∈ ((prepareOperationsFrom env i files).run w).trail,
        ∃ saved : PreImages, x = w.setPreImages saved) ∧
      (∀ p, (∀ f ∈ files, f.path ≠ p) → saved.lookup p = w.preImages.lookup p) ∧
      ∀ ops, ((prepareOperationsFrom env i files).run w).result = .ok ops →
        ops = files.map (preparedOperation w.live) ∧
          ∀ f ∈ files, ∀ d, w.live.content f.path = some d → saved.lookup f.path = some d := by
  induction files generalizing i w with
  | nil => exact ⟨w.preImages, rfl, by simp [prepareOperationsFrom], fun _ _ => rfl, by
      rintro ops ⟨⟩; simp⟩
  | cons f rest ih =>
      simp only [List.map_cons, List.nodup_cons, List.mem_map, not_exists, not_and] at hn
      obtain ⟨saved₁, hfin, htrail, hframe, hop⟩ := prepareOperation_run env i f w
      simp only [prepareOperationsFrom]
      cases hres : ((prepareOperation env i f).run w).result with
      | error e =>
          rw [Prog.run_bind_error hres]
          refine ⟨saved₁, hfin, fun x hx => ⟨saved₁, htrail x hx⟩, fun p hp => ?_, by simp⟩
          exact hframe p (hp f List.mem_cons_self).symm
      | ok op =>
          obtain ⟨rfl, hsaved⟩ := hop op hres
          obtain ⟨saved, hfin', htrail', hframe', hops⟩ := ih hn.2 (i + 1) (w.setPreImages saved₁)
          rw [Prog.run_bind_ok hres, hfin]
          have htr : ∀ x, x ∈ ((prepareOperation env i f).run w).trail ∨
              x ∈ ((prepareOperationsFrom env (i + 1) rest).run (w.setPreImages saved₁)).trail →
              ∃ saved : PreImages, x = w.setPreImages saved := by
            rintro x (hx | hx)
            · exact ⟨saved₁, htrail x hx⟩
            · obtain ⟨saved', rfl⟩ := htrail' x hx
              exact ⟨saved', rfl⟩
          have hfr : ∀ p, (∀ g ∈ f :: rest, g.path ≠ p) → saved.lookup p = w.preImages.lookup p := by
            intro p hp
            rw [hframe' p fun g hg => hp g (List.mem_cons_of_mem _ hg)]
            exact hframe p (hp f List.mem_cons_self).symm
          cases hres' : ((prepareOperationsFrom env (i + 1) rest).run
              (w.setPreImages saved₁)).result with
          | error e =>
              rw [Prog.run_bind_error hres', hfin']
              refine ⟨saved, rfl, fun x hx => htr x (List.mem_append.mp hx), hfr, by simp⟩
          | ok ops =>
              obtain ⟨rfl, hrest⟩ := hops ops hres'
              rw [Prog.run_bind_ok hres', hfin']
              refine ⟨saved, rfl, fun x hx => htr x ?_, hfr, ?_⟩
              · simpa [List.append_nil] using hx
              · rintro ops ⟨⟩
                refine ⟨rfl, fun g hg d hd => ?_⟩
                rcases List.mem_cons.mp hg with rfl | hg
                · rw [hframe' g.path hn.1]
                  exact hsaved d hd
                · exact hrest g hg d hd

/-! ## The whole preparation -/

/-- Changed files that passed the stale check lie apart. -/
theorem apart_of_staleCheck {a b : Snapshot} {t : Tree String Bytes} {f g : ChangedFileEntry}
    (hf : f ∈ changesBetween env.sha256 a b) (hg : g ∈ changesBetween env.sha256 a b)
    (hcf : staleCheckFile env t f = .ok ()) (hcg : staleCheckFile env t g = .ok ())
    (hne : f.path ≠ g.path) : ¬ f.path <+: g.path := by
  intro hpre
  obtain ⟨hvf, haf, hmf⟩ := staleCheckFile_ok hcf
  obtain ⟨hvg, hag, hmg⟩ := staleCheckFile_ok hcg
  have hup := (validateSafeWorkspacePath_ok hvg).2.2.2 f.path hpre hne
  -- a file on the way to another is missing, so both were added
  have hfa : f.status = .added := by
    by_contra hs
    obtain ⟨d, hd⟩ := hmf hs
    rw [hd] at hup
    simp at hup
  have hga : g.status = .added := by
    by_contra hs
    obtain ⟨d, hd⟩ := hmg hs
    have hbelow := Tree.node_below_eq_none (t := t) (by rw [haf hfa]; simp) hpre hne
    rw [hbelow] at hd
    cases hd
  obtain ⟨x, hx, -⟩ := lookup_of_change hf (by rw [hfa]; simp)
  obtain ⟨y, hy, -⟩ := lookup_of_change hg (by rw [hga]; simp)
  exact (Snapshot.apart_of_mem_paths (Snapshot.mem_paths_of_lookup (by rw [hx]; simp))
    (Snapshot.mem_paths_of_lookup (by rw [hy]; simp)) hne).1 hpre

theorem preparedOperations_ready {a b : Snapshot} {files : List ChangedFileEntry}
    (hfiles : files = changesBetween env.sha256 a b) {t : Tree String Bytes}
    (hc : ∀ f ∈ files, staleCheckFile env t f = .ok ()) {saved : PreImages}
    (hs : ∀ f ∈ files, ∀ d, t.content f.path = some d → saved.lookup f.path = some d) :
    OpsReady t saved (files.map (preparedOperation t)) := by
  refine ⟨?_, fun op hop => ?_⟩
  · have hn := changesBetween_paths_nodup env.sha256 a b
    rw [← hfiles, List.nodup_iff_pairwise_ne, List.pairwise_map] at hn
    rw [PathsApart, List.pairwise_map]
    refine hn.imp_of_mem fun {f g} hf hg hne => ?_
    subst hfiles
    exact ⟨apart_of_staleCheck hf hg (hc f hf) (hc g hg) hne,
      apart_of_staleCheck hg hf (hc g hg) (hc f hf) hne.symm⟩
  · obtain ⟨f, hf, rfl⟩ := List.mem_map.mp hop
    obtain ⟨hv, hadded, hother⟩ := staleCheckFile_ok (hc f hf)
    refine ⟨(validateSafeWorkspacePath_ok hv).1, fun he => ?_, fun he => ?_⟩
    · obtain ⟨d, hd⟩ := Option.isSome_iff_exists.mp he
      exact ⟨by simp [preparedOperation, hd], d, Tree.content_eq_some.mp hd, hs f hf d hd⟩
    · by_cases hst : f.status = .added
      · exact hadded hst
      · obtain ⟨d, hd⟩ := hother hst
        simp [preparedOperation, Tree.content_eq_some.mpr hd] at he

/-- The prepared operations of a plan, on the workspace they were prepared on. -/
structure Prepared (env : Env) (migrationID : String) (plan : ApplyPlan)
    (ops : List ApplyOperation) (w : World) : Prop where
  ready : OpsReady w.live w.preImages ops
  applyDir : w.applyDir = true
  state : w.stateOf migrationID = some .readyForReview
  ops_eq : ops = plan.changedFiles.map (preparedOperation w.live)
  plan_ok : ∃ s, PlanOk env migrationID s plan

/-- A preparation that succeeds ends with prepared operations, and the
workspace is the reconciled one with features seeded. -/
theorem prepareApply_ok {w : World} {revisionID expectedPatchHash : String} {plan : ApplyPlan}
    {ops : List ApplyOperation}
    (h : ((prepareApply env migrationID revisionID expectedPatchHash).run w).result =
      .ok (plan, ops)) :
    Prepared env migrationID plan ops
        ((prepareApply env migrationID revisionID expectedPatchHash).run w).final ∧
      Seeded ((reconcileInterruptedApply env migrationID).run w).final.live
        ((prepareApply env migrationID revisionID expectedPatchHash).run w).final.live := by
  simp only [prepareApply] at h ⊢
  cases hl : env.lockError with
  | some e => simp [hl] at h
  | none =>
      simp only [hl, Prog.run_attempt_bind] at h ⊢
      cases hrec : ((reconcileInterruptedApply env migrationID).run w).result with
      | error e => simp [hrec] at h
      | ok u =>
          simp only [hrec, Prog.run_get_bind] at h ⊢
          generalize ((reconcileInterruptedApply env migrationID).run w).final = x at h ⊢
          cases hcheck : checkRevision env migrationID x.store revisionID expectedPatchHash with
          | error e => simp [hcheck] at h
          | ok plan' =>
              simp only [hcheck] at h ⊢
              have hplan := checkRevision_ok hcheck
              obtain ⟨⟨t, hfin, hseed⟩, -⟩ := seedFeatures_seeds env plan'.changedFiles x
              obtain ⟨u₁, -, h₁, hf₁, -⟩ := Prog.run_bind_eq_ok h
              rw [hf₁]
              rw [hfin] at h₁ ⊢
              obtain ⟨u₂, hr₂, h₂, hf₂, -⟩ := Prog.run_bind_eq_ok h₁
              rw [hf₂]
              rcases staleCheck_run env migrationID plan'.changedFiles
                (x.setLive t) with ⟨hrun, hc⟩ | ⟨message, state, hr, -⟩
              · rw [hrun] at h₂ ⊢
                obtain ⟨ops', hr₃, h₃, hf₃, -⟩ := Prog.run_bind_eq_ok h₂
                rw [hf₃]
                cases h₃
                obtain ⟨mig, a, b, hm, ha, hb, hfiles⟩ := hplan.commits
                have hn := changesBetween_paths_nodup env.sha256 a.snapshot b.snapshot
                rw [← hfiles] at hn
                simp only [prepareOperations, Prog.run_write_bind] at hr₃ ⊢
                obtain ⟨saved, hfin', -, -, hops⟩ := prepareOperationsFrom_run env hn 0
                  ({ x.setLive t with preImages := ∅, applyDir := true } : World)
                obtain ⟨rfl, hsaved⟩ := hops ops hr₃
                rw [hfin']
                exact ⟨⟨preparedOperations_ready hfiles hc hsaved, rfl, hplan.state, rfl, x.store,
                  hplan⟩, hseed⟩
              · rw [hr₂] at hr
                cases hr

end Openlia.Operator
