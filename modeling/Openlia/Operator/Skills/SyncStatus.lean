import Openlia.Operator.Skills.PatchOperations
import Openlia.Operator.Skills.Sync

/-! # The status of a skill

The status and the synchronisation of a skill take the same decision wherever the entry is
absent or a directory.
-/

namespace Openlia.Skills

open Lib Crash

variable {sha256 : Bytes → Sha256} {files : SkillFiles} {source : Dir}
  {name version sourceID : String} {calls : SyncCalls}

/-! ## Metadata -/

theorem contentHash_valid (t : Dir) : contentHashPattern (contentHash sha256 t) = true :=
  contentHashPattern_sha256 _

theorem contentHash_ne_empty (t : Dir) : contentHash sha256 t ≠ "" := by
  intro h
  have hvalid := @contentHash_valid sha256 t
  rw [h] at hvalid
  exact absurd hvalid (by decide)

/-- What valid metadata promises. -/
theorem readSkillMetadata_valid {file : Option (Option SkillMetadata)}
    (h : (readSkillMetadata file name).State = "valid") :
    contentHashPattern (readSkillMetadata file name).Hash = true ∧
      (readSkillMetadata file name).InstalledAt ≠ "" ∧
      ((readSkillMetadata file name).Ownership = "forked" →
        contentHashPattern (readSkillMetadata file name).ForkHash = true) := by
  match file with
  | none => exact absurd (show "unmanaged" = "valid" from h) (by decide)
  | some none => exact absurd (show "invalid" = "valid" from h) (by decide)
  | some (some metadata) =>
      unfold readSkillMetadata at h ⊢
      dsimp only at h ⊢
      by_cases hvalid : validSkillMetadata metadata name = true
      · rw [if_pos hvalid]
        unfold validSkillMetadata at hvalid
        split at hvalid
        · cases hvalid
        · rename_i hno
          simp only [not_or, Bool.not_eq_false] at hno
          obtain ⟨-, -, -, -, -, -, -, -, hhash, -, -, -, hinstalled, -⟩ := hno
          refine ⟨hhash, hinstalled, fun hforked => ?_⟩
          rw [if_pos (show metadata.Ownership = "forked" from hforked)] at hvalid
          exact (Bool.and_eq_true _ _ ▸ hvalid).1
      · rw [if_neg hvalid] at h
        exact absurd (show "invalid" = "valid" from h) (by decide)

/-- The metadata that a synchronisation writes is valid when it has a version and a source. -/
theorem validSkillMetadata_new {hash installedAt patchHash : String}
    (hhash : contentHashPattern hash = true) (hinstalled : installedAt ≠ "")
    (hpatch : contentHashPattern patchHash = true) :
    validSkillMetadata { newMetadata calls name hash version sourceID with
      InstalledAt := installedAt, PatchSHA256 := patchHash, ForkSHA256 := "" } name = true ↔
        version ≠ "" ∧ sourceID ≠ "" := by
  have hstamp : calls.stamp.1 ≠ "" := calls.stamp.2
  unfold validSkillMetadata newMetadata
  simp [hhash, hpatch, hinstalled, hstamp, distributionName]

/-! ## The copies -/

theorem copyDir_run {put : SkillFiles → Option SkillEntry → SkillFiles}
    (hput : ∀ f a b, put (put f a) b = put f b) (copied : List Dir) (files : SkillFiles) :
    ((copyDir put source copied).run files).result = .ok () ∧
      ((copyDir put source copied).run files).final = put files (some (.directory source)) := by
  induction copied generalizing files with
  | nil => exact ⟨rfl, rfl⟩
  | cons t rest ih =>
      have hrest := ih (put files (some (.directory t)))
      rw [hput] at hrest
      exact hrest

theorem replaceBase_run (copied : List Dir) (files : SkillFiles) :
    (files.base = some .other → ((replaceBase source copied).run files).final = files ∧
      ∃ e, ((replaceBase source copied).run files).result = .error e) ∧
    (files.base ≠ some .other → ((replaceBase source copied).run files).result = .ok () ∧
      ((replaceBase source copied).run files).final =
        files.setBase (some (.directory source))) := by
  unfold replaceBase
  rw [Prog.run_get_bind]
  match hbase : files.base with
  | none =>
      refine ⟨nofun, fun _ => ?_⟩
      exact @copyDir_run source SkillFiles.setBase (fun _ _ _ => rfl) copied files
  | some .other => exact ⟨fun _ => ⟨rfl, _, rfl⟩, fun h => absurd rfl h⟩
  | some (.directory t) => exact ⟨nofun, fun _ => ⟨rfl, rfl⟩⟩

/-! ## The snapshot -/

/-- The patch between two copies of one directory. -/
theorem generate_self (name : String) :
    GenerateSkillPatch sha256 source source name =
      (readSkillFiles source).map fun _ =>
        ⟨1, skillPatchFormat, name, contentHash sha256 source, []⟩ := by
  unfold GenerateSkillPatch
  cases readSkillFiles source with
  | error e => rfl
  | ok paths => exact if_pos rfl

theorem validate_unchanged (name : String) :
    validateSkillPatch sha256 ⟨1, skillPatchFormat, name, contentHash sha256 source, []⟩ =
      validateSafeComponent name "skill" := by
  unfold validateSkillPatch
  simp only [ne_eq, not_true_eq_false, or_self, if_false]
  cases validateSafeComponent name "skill" with
  | error e => rfl
  | ok u => simp [contentHash_valid, validateOperations]

theorem writeSkillBaseline_run {metadata : SkillMetadata}
    (hskill : files.skill = some (.directory source)) :
    let o := (writeSkillBaseline sha256 calls source name metadata).run files
    (o.final.skill = files.skill ∧ o.final.metadata = files.metadata) ∧
      ((∃ m, o.result = .ok m) ↔ files.base ≠ some .other ∧
        (∃ paths, readSkillFiles source = .ok paths) ∧
          validateSafeComponent name "skill" = .ok ()) ∧
      ∀ m, o.result = .ok m → ∃ patch : SkillPatch, m =
        { metadata with PatchSHA256 := bytesHash sha256 (calls.encode patch), ForkSHA256 := "" } := by
  dsimp only
  obtain ⟨hother, hdirectory⟩ := @replaceBase_run source calls.copiedBase files
  unfold writeSkillBaseline
  by_cases hbase : files.base = some .other
  · obtain ⟨hfinal, e, he⟩ := hother hbase
    rw [Prog.run_bind_error he, hfinal]
    refine ⟨⟨rfl, rfl⟩, ⟨?_, fun h => absurd hbase h.1⟩, ?_⟩
    · rintro ⟨m, ⟨⟩⟩
    · rintro m ⟨⟩
  · obtain ⟨hok, hfinal⟩ := hdirectory hbase
    rw [Prog.run_bind_ok hok, hfinal, Prog.run_get_bind]
    have hgenerated : generatedPatch sha256 (files.setBase (some (.directory source))) name =
        GenerateSkillPatch sha256 source source name := by
      unfold generatedPatch SkillFiles.setBase
      rw [hskill]
    rw [hgenerated, generate_self]
    cases hread : readSkillFiles source with
    | error e =>
        refine ⟨⟨rfl, rfl⟩, ⟨?_, ?_⟩, ?_⟩
        · rintro ⟨m, ⟨⟩⟩
        · rintro ⟨-, ⟨paths, ⟨⟩⟩, -⟩
        · rintro m ⟨⟩
    | ok paths =>
        simp only [Except.map, Prog.lift_ok, Prog.pure_bind']
        rw [validate_unchanged]
        cases hsafe : validateSafeComponent name "skill" with
        | error e =>
            refine ⟨⟨rfl, rfl⟩, ⟨?_, ?_⟩, ?_⟩
            · rintro ⟨m, ⟨⟩⟩
            · rintro ⟨-, -, ⟨⟩⟩
            · rintro m ⟨⟩
        | ok u =>
            refine ⟨⟨rfl, rfl⟩, ⟨fun _ => ⟨hbase, ⟨paths, rfl⟩, rfl⟩, fun _ => ⟨_, rfl⟩⟩, ?_⟩
            rintro m ⟨⟩
            exact ⟨_, rfl⟩

/-! ## The decision -/

/-- The directory is the one that the metadata records, and no fork. -/
structure Managed (sha256 : Bytes → Sha256) (files : SkillFiles) (name : String) (t : Dir) :
    Prop where
  skill : files.skill = some (.directory t)
  valid : (readSkillMetadata files.metadata name).State = "valid"
  unforked : (readSkillMetadata files.metadata name).Ownership ≠ "forked"
  hash : contentHash sha256 t = (readSkillMetadata files.metadata name).Hash

/-- The user has changed nothing. -/
def Unmodified (sha256 : Bytes → Sha256) (files : SkillFiles) (name : String) : Prop :=
  files.skill = none ∨ ∃ t, Managed sha256 files name t

/-- There is something to install or to update. -/
def Pending (sha256 : Bytes → Sha256) (files : SkillFiles) (source : Dir) (name : String) : Prop :=
  files.skill = none ∨
    ∃ t, Managed sha256 files name t ∧ contentHash sha256 t ≠ contentHash sha256 source

/-- The source can be installed here and recorded. -/
structure Recordable (calls : SyncCalls) (files : SkillFiles) (source : Dir)
    (name version sourceID : String) : Prop where
  readable : ∃ paths, readSkillFiles source = .ok paths
  safe : validateSafeComponent name "skill" = .ok ()
  version : version ≠ ""
  sourceID : sourceID ≠ ""
  base : files.base ≠ some .other
  provision : files.skill = none → calls.provision = none

/-- The source is installed and recorded as managed. -/
structure Current (sha256 : Bytes → Sha256) (files : SkillFiles) (source : Dir) (name : String) :
    Prop where
  skill : ∃ t, Managed sha256 files name t ∧ contentHash sha256 t = contentHash sha256 source

/-- What is written behind the directory makes the source current, when it can be recorded. -/
theorem written_current {installedAt : String} (hinstalled : installedAt ≠ "")
    (hskill : files.skill = some (.directory source)) {patch : SkillPatch}
    (hmetadata : files.metadata = some (some { newMetadata calls name (contentHash sha256 source)
      version sourceID with
        InstalledAt := installedAt, PatchSHA256 := bytesHash sha256 (calls.encode patch),
        ForkSHA256 := "" })) :
    Current sha256 files source name ↔ version ≠ "" ∧ sourceID ≠ "" := by
  have hvalid := @validSkillMetadata_new name version sourceID calls (contentHash sha256 source)
    installedAt (bytesHash sha256 (calls.encode patch)) (contentHash_valid source) hinstalled
    (contentHashPattern_sha256 _)
  constructor
  · rintro ⟨t, ht, -⟩
    refine hvalid.mp ?_
    have hstate := ht.valid
    rw [hmetadata] at hstate
    by_contra hno
    unfold readSkillMetadata at hstate
    dsimp only at hstate
    rw [if_neg hno] at hstate
    exact absurd (show "invalid" = "valid" from hstate) (by decide)
  · intro h
    have hread : readSkillMetadata files.metadata name = metadataInfoFromMetadata
        { newMetadata calls name (contentHash sha256 source) version sourceID with
          InstalledAt := installedAt, PatchSHA256 := bytesHash sha256 (calls.encode patch),
          ForkSHA256 := "" } := by
      rw [hmetadata]
      exact if_pos (hvalid.mpr h)
    refine ⟨source, ⟨hskill, ?_, ?_, ?_⟩, rfl⟩
    · rw [hread]
      rfl
    · rw [hread]
      show "managed" ≠ "forked"
      decide
    · rw [hread]
      rfl

/-- The snapshot, the metadata and what follows without a write. -/
theorem recorded_run {installedAt : String} (hinstalled : installedAt ≠ "")
    (hskill : files.skill = some (.directory source)) {k : SkillMetadata → SkillAction SkillResult}
    {P : Prop} (hfinal : ∀ m f, ((k m).run f).final = f)
    (hk : ∀ m f, (∃ r, ((k m).run f).result = .ok r) ↔ P) :
    let o := (do
      let written ← writeSkillBaseline sha256 calls source name
        { newMetadata calls name (contentHash sha256 source) version sourceID with
          InstalledAt := installedAt }
      writeSkillMetadata written
      k written : SkillAction SkillResult).run files
    ((∃ r, o.result = .ok r) ∧ Current sha256 o.final source name ↔
      (files.base ≠ some .other ∧ (∃ paths, readSkillFiles source = .ok paths) ∧
        validateSafeComponent name "skill" = .ok ()) ∧ version ≠ "" ∧ sourceID ≠ "" ∧ P) ∧
      ∀ r, o.result = .ok r → ∃ m f, ((k m).run f).result = .ok r := by
  dsimp only
  obtain ⟨⟨hs, -⟩, hok, hwritten⟩ := @writeSkillBaseline_run sha256 files source name calls
    { newMetadata calls name (contentHash sha256 source) version sourceID with
      InstalledAt := installedAt } hskill
  cases hresult : ((writeSkillBaseline sha256 calls source name
      { newMetadata calls name (contentHash sha256 source) version sourceID with
        InstalledAt := installedAt }).run files).result with
  | error e =>
      rw [Prog.run_bind_error hresult]
      refine ⟨⟨?_, fun h => ?_⟩, by rintro r ⟨⟩⟩
      · rintro ⟨⟨r, ⟨⟩⟩, -⟩
      · obtain ⟨m, hm⟩ := hok.mpr h.1
        cases hresult.symm.trans hm
  | ok m =>
      rw [Prog.run_bind_ok hresult]
      obtain ⟨patch, hpatch⟩ := hwritten m hresult
      have hcurrent := @written_current sha256 { (Prog.run (writeSkillBaseline sha256 calls source
        name { newMetadata calls name (contentHash sha256 source) version sourceID with
          InstalledAt := installedAt }) files).final with metadata := some (some m) }
        source name version sourceID calls installedAt hinstalled (hs.trans hskill) patch
        (by rw [hpatch])
      unfold writeSkillMetadata
      rw [Prog.run_write_bind]
      dsimp only
      rw [hfinal, hk, hcurrent]
      refine ⟨⟨fun h => ⟨hok.mp ⟨m, hresult⟩, h.2.1, h.2.2, h.1⟩,
        fun h => ⟨h.2.2.2, h.2.1, h.2.2.1⟩⟩, fun r hr => ⟨_, _, hr⟩⟩

/-- The end of an installation. -/
theorem installSkill_run (hskill : files.skill = none) :
    let o := (installSkill sha256 calls source name version sourceID).run files
    ((∃ r, o.result = .ok r) ∧ Current sha256 o.final source name ↔
      Recordable calls files source name version sourceID) ∧
      ∀ r, o.result = .ok r → r.Action = "installed" := by
  dsimp only
  unfold installSkill
  obtain ⟨hcopied, hfinal⟩ := @copyDir_run source SkillFiles.setSkill (fun _ _ _ => rfl)
    calls.copiedSkill files
  rw [Prog.run_bind_ok hcopied, hfinal]
  dsimp only
  obtain ⟨hiff, hresult⟩ := @recorded_run sha256 (files.setSkill (some (.directory source))) source
    name version sourceID calls calls.stamp.1 calls.stamp.2 rfl (fun written => do
      Prog.refuse calls.provision
      let info := metadataInfoFromMetadata written
      pure (skillResult name "new" "installed" "managed" "installed_from_distribution" "created"
        info info.Version (contentHash sha256 source) (contentHash sha256 source)))
    (calls.provision = none) (fun m f => by cases calls.provision <;> rfl)
    (fun m f => by
      cases calls.provision with
      | none => exact ⟨fun _ => rfl, fun _ => ⟨_, rfl⟩⟩
      | some e =>
          refine ⟨?_, nofun⟩
          rintro ⟨r, ⟨⟩⟩)
  refine ⟨hiff.trans ⟨?_, ?_⟩, fun r hr => ?_⟩
  · rintro ⟨⟨hbase, hread, hsafe⟩, hv, hs, hp⟩
    exact ⟨hread, hsafe, hv, hs, hbase, fun _ => hp⟩
  · exact fun h => ⟨⟨h.base, h.readable, h.safe⟩, h.version, h.sourceID, h.provision hskill⟩
  · obtain ⟨m, f, hk⟩ := hresult r hr
    cases hprovision : calls.provision with
    | none =>
        rw [hprovision] at hk
        cases hk
        rfl
    | some e =>
        rw [hprovision] at hk
        cases hk

/-- The end of an update. -/
theorem updateSkill_run {current : Dir} (hmanaged : Managed sha256 files name current) :
    let o := (updateSkill sha256 calls source current name version sourceID
      (readSkillMetadata files.metadata name)).run files
    ((∃ r, o.result = .ok r) ∧ Current sha256 o.final source name ↔
      Recordable calls files source name version sourceID) ∧
      ∀ r, o.result = .ok r → r.Action = "updated" := by
  dsimp only
  unfold updateSkill atomicCopyDir
  obtain ⟨hiff, hresult⟩ := @recorded_run sha256 (files.setSkill (some (.directory source))) source
    name version sourceID calls (readSkillMetadata files.metadata name).InstalledAt
    (readSkillMetadata_valid hmanaged.valid).2.1 rfl (fun written =>
      let info := metadataInfoFromMetadata written
      pure (skillResult name "managed" "updated" "managed" "managed_artifact_updated" "valid" info
        info.Version (contentHash sha256 source) (contentHash sha256 source)))
    True (fun m f => rfl) (fun m f => ⟨fun _ => trivial, fun _ => ⟨_, rfl⟩⟩)
  refine ⟨hiff.trans ⟨?_, ?_⟩, fun r hr => ?_⟩
  · rintro ⟨⟨hbase, hread, hsafe⟩, hv, hs, -⟩
    refine ⟨hread, hsafe, hv, hs, hbase, fun hnone => ?_⟩
    cases hmanaged.skill.symm.trans hnone
  · exact fun h => ⟨⟨h.base, h.readable, h.safe⟩, h.version, h.sourceID, trivial⟩
  · obtain ⟨m, f, hk⟩ := hresult r hr
    cases hk
    rfl

/-! ## The status -/

/-- Only a directory can have the hash of valid metadata. -/
theorem currentHash_eq {file : Option (Option SkillMetadata)} {skill : Option SkillEntry}
    (hvalid : (readSkillMetadata file name).State = "valid")
    (h : currentHash sha256 skill = (readSkillMetadata file name).Hash) :
    ∃ t, skill = some (.directory t) := by
  match skill with
  | some (.directory t) => exact ⟨t, rfl⟩
  | none | some .other =>
      have hhash := (readSkillMetadata_valid hvalid).1
      rw [← h] at hhash
      exact absurd (show contentHashPattern "" = true from hhash) (by decide)

/-- What the state and the action of a status say. -/
structure Reports (sha256 : Bytes → Sha256) (files : SkillFiles) (source : Dir) (name : String)
    (st : SkillResult) : Prop where
  new : st.State = "new" ↔ files.skill = none
  update : st.State = "managed" ∧ st.Action = "update_available" ↔
    files.skill ≠ none ∧ Pending sha256 files source name
  unchanged : st.State = "managed" ∧ st.Action = "unchanged" ↔ Current sha256 files source name

theorem statusSkill_reports : ∃ st,
    statusSkill sha256 files (some source) name version sourceID = .ok st ∧
      Reports sha256 files source name st := by
  have hfork : ∀ t, Managed sha256 files name t →
      ¬ ((readSkillMetadata files.metadata name).State = "valid" ∧
        (readSkillMetadata files.metadata name).Ownership = "forked") :=
    fun t ht h => ht.unforked h.2
  -- A state other than these three says that the directory is not managed.
  have hother : ∀ st : SkillResult, files.skill ≠ none → st.State ≠ "new" →
      st.State ≠ "managed" → (∀ t, ¬ Managed sha256 files name t) →
        Reports sha256 files source name st := by
    intro st hsome hnew hstate hno
    refine ⟨⟨fun h => absurd h hnew, fun h => absurd h hsome⟩,
      ⟨fun h => absurd h.1 hstate, ?_⟩, ⟨fun h => absurd h.1 hstate, ?_⟩⟩
    · rintro ⟨-, hnone | ⟨t, ht, -⟩⟩
      · exact absurd hnone hsome
      · exact absurd ht (hno t)
    · rintro ⟨t, ht, -⟩
      exact absurd ht (hno t)
  unfold statusSkill
  cases hskill : files.skill with
  | none =>
      refine ⟨_, rfl, ⟨fun _ => hskill, fun _ => rfl⟩, ⟨?_, fun h => absurd hskill h.1⟩, ⟨?_, ?_⟩⟩
      · rintro ⟨h, -⟩
        exact absurd (show "new" = "managed" from h) (by decide)
      · rintro ⟨h, -⟩
        exact absurd (show "new" = "managed" from h) (by decide)
      · rintro ⟨t, ht, -⟩
        cases hskill.symm.trans ht.skill
  | some e =>
      have hsome : files.skill ≠ none := by rw [hskill]; exact Option.some_ne_none e
      simp only [Option.isNone_some, Bool.false_eq_true, if_false, Option.map_some,
        Option.getD_some]
      by_cases hforked : (readSkillMetadata files.metadata name).State = "valid" ∧
          (readSkillMetadata files.metadata name).Ownership = "forked"
      · rw [if_pos hforked]
        have hno : ∀ t, ¬ Managed sha256 files name t := fun t ht => hfork t ht hforked
        split
        · exact ⟨_, rfl, hother _ hsome (by simp [statusResult]) (by simp [statusResult]) hno⟩
        · split
          · exact ⟨_, rfl, hother _ hsome (by simp [statusResult]) (by simp [statusResult]) hno⟩
          · exact ⟨_, rfl, hother _ hsome (by simp [statusResult]) (by simp [statusResult]) hno⟩
      · rw [if_neg hforked]
        by_cases hhash : (readSkillMetadata files.metadata name).State = "valid" ∧
            currentHash sha256 (some e) = (readSkillMetadata files.metadata name).Hash
        · rw [if_pos hhash]
          obtain ⟨t, ht⟩ := currentHash_eq hhash.1 hhash.2
          have hmanaged : Managed sha256 files name t :=
            ⟨hskill.trans ht, hhash.1, fun h => hforked ⟨hhash.1, h⟩, by
              rw [← hhash.2, ht]
              rfl⟩
          have hunique : ∀ u, Managed sha256 files name u → u = t := by
            intro u hu
            have := hu.skill.symm.trans hmanaged.skill
            cases this
            rfl
          have hcurrent : currentHash sha256 (some e) = contentHash sha256 t := by
            rw [ht]
            rfl
          rw [hcurrent]
          by_cases hsame : contentHash sha256 t = contentHash sha256 source
          · rw [if_neg (not_not_intro hsame)]
            refine ⟨_, rfl, ⟨?_, fun h => absurd h hsome⟩, ⟨?_, ?_⟩,
              ⟨fun _ => ⟨t, hmanaged, hsame⟩, fun _ => ⟨rfl, rfl⟩⟩⟩
            · exact fun h => absurd (show "managed" = "new" from h) (by decide)
            · exact fun h => absurd (show "unchanged" = "update_available" from h.2) (by decide)
            · rintro ⟨-, hnone | ⟨u, hu, hne⟩⟩
              · exact absurd hnone hsome
              · exact absurd (hunique u hu ▸ hsame) hne
          · rw [if_pos hsame]
            refine ⟨_, rfl, ⟨?_, fun h => absurd h hsome⟩,
              ⟨fun _ => ⟨hsome, Or.inr ⟨t, hmanaged, hsame⟩⟩, fun _ => ⟨rfl, rfl⟩⟩, ⟨?_, ?_⟩⟩
            · exact fun h => absurd (show "managed" = "new" from h) (by decide)
            · exact fun h => absurd (show "update_available" = "unchanged" from h.2) (by decide)
            · rintro ⟨u, hu, heq⟩
              exact absurd (hunique u hu ▸ heq) hsame
        · rw [if_neg hhash]
          have hno : ∀ t, ¬ Managed sha256 files name t := by
            intro t ht
            refine hhash ⟨ht.valid, ?_⟩
            rw [← hskill, ht.skill]
            exact ht.hash
          split
          · exact ⟨_, rfl, hother _ hsome (by simp [statusResult]) (by simp [statusResult]) hno⟩
          · exact ⟨_, rfl, hother _ hsome (by simp [statusResult]) (by simp [statusResult]) hno⟩

/-! ## The synchronisation -/

/-- Where there is something to do, it is done if the source can be recorded. -/
theorem syncSkill_pending (h : Pending sha256 files source name) :
    let o := (syncSkill sha256 calls source name version sourceID).run files
    ((∃ r, o.result = .ok r) ∧ Current sha256 o.final source name ↔
      Recordable calls files source name version sourceID) ∧
      ∀ r, o.result = .ok r → (files.skill = none → r.Action = "installed") ∧
        (files.skill ≠ none → r.Action = "updated") := by
  dsimp only
  unfold syncSkill
  rw [Prog.run_get_bind]
  dsimp only
  rcases h with hnone | ⟨t, ht, hne⟩
  · rw [hnone]
    obtain ⟨hiff, haction⟩ := @installSkill_run sha256 files source name version sourceID calls hnone
    exact ⟨hiff, fun r hr => ⟨fun _ => haction r hr, fun h => absurd rfl h⟩⟩
  · rw [ht.skill]
    dsimp only
    unfold syncDirectory
    dsimp only
    rw [if_neg fun h => ht.unforked h.2, if_pos ⟨ht.valid, ht.hash⟩, if_neg hne]
    obtain ⟨hiff, haction⟩ := @updateSkill_run sha256 files source name version sourceID calls t ht
    exact ⟨hiff, fun r hr => ⟨nofun, fun _ => haction r hr⟩⟩

/-- The entry is no directory although the metadata is valid. -/
def Misshapen (files : SkillFiles) (name : String) : Prop :=
  files.skill = some .other ∧ (readSkillMetadata files.metadata name).State = "valid"

/-- An entry that is left alone. -/
structure LeftAlone (o : Outcome SkillFiles String SkillResult) (files : SkillFiles)
    (r : SkillResult) : Prop where
  result : o.result = .ok r
  final : o.final = files
  trail : o.trail = []
  notInstalled : r.Action ≠ "installed"
  notUpdated : r.Action ≠ "updated"

/-- The status of a directory that is left alone. -/
theorem syncDirectory_idle {t : Dir} (hskill : files.skill = some (.directory t))
    (h : ∀ u, Managed sha256 files name u → contentHash sha256 u = contentHash sha256 source) :
    ∃ r st, statusSkill sha256 files (some source) name version sourceID = .ok st ∧
      LeftAlone ((syncDirectory sha256 calls source t name version sourceID
        (readSkillMetadata files.metadata name)).run files) files r ∧
      r.State = st.State ∧ r.Reason = st.Reason := by
  unfold syncDirectory statusSkill
  rw [hskill]
  have hcurrent : currentHash sha256 (some (.directory t)) = contentHash sha256 t := rfl
  simp only [Option.isNone_some, Bool.false_eq_true, if_false, Option.map_some, Option.getD_some,
    hcurrent]
  by_cases hforked : (readSkillMetadata files.metadata name).State = "valid" ∧
      (readSkillMetadata files.metadata name).Ownership = "forked"
  · rw [if_pos hforked, if_pos hforked]
    have hfork : (readSkillMetadata files.metadata name).ForkHash ≠ "" := by
      intro hempty
      have hhash := (readSkillMetadata_valid hforked.1).2.2 hforked.2
      rw [hempty] at hhash
      exact absurd hhash (by decide)
    by_cases hdirty : contentHash sha256 t = (readSkillMetadata files.metadata name).ForkHash
    · have hclean : ¬ ((readSkillMetadata files.metadata name).ForkHash = "" ∨
          contentHash sha256 t ≠ (readSkillMetadata files.metadata name).ForkHash) :=
        not_or.mpr ⟨hfork, not_not_intro hdirty⟩
      rw [if_neg hclean, if_neg (not_not_intro hdirty)]
      by_cases hsource : contentHash sha256 source = (readSkillMetadata files.metadata name).Hash
      · rw [if_neg (not_not_intro hsource), if_neg fun h => h.2 hsource]
        exact ⟨_, _, rfl, ⟨rfl, rfl, rfl, by simp [statusResult], by simp [statusResult]⟩, rfl, rfl⟩
      · rw [if_pos hsource, if_pos ⟨contentHash_ne_empty source, hsource⟩]
        exact ⟨_, _, rfl, ⟨rfl, rfl, rfl, by simp [statusResult], by simp [statusResult]⟩, rfl, rfl⟩
    · rw [if_pos (Or.inr hdirty), if_pos hdirty]
      exact ⟨_, _, rfl, ⟨rfl, rfl, rfl, by simp [blockedSkillResultWithCurrent],
        by simp [blockedSkillResultWithCurrent]⟩, rfl, rfl⟩
  · rw [if_neg hforked, if_neg hforked]
    by_cases hhash : (readSkillMetadata files.metadata name).State = "valid" ∧
        contentHash sha256 t = (readSkillMetadata files.metadata name).Hash
    · have hsame := h t ⟨hskill, hhash.1, fun h => hforked ⟨hhash.1, h⟩, hhash.2⟩
      rw [if_pos hhash, if_pos hhash, if_pos hsame, if_neg (not_not_intro hsame)]
      exact ⟨_, _, rfl, ⟨rfl, rfl, rfl, by simp [skillResult], by simp [skillResult]⟩, rfl, rfl⟩
    · rw [if_neg hhash, if_neg hhash]
      by_cases hvalid : (readSkillMetadata files.metadata name).State = "valid"
      · rw [if_pos hvalid, if_pos hvalid]
        exact ⟨_, _, rfl, ⟨rfl, rfl, rfl, by simp [blockedSkillResultWithCurrent],
          by simp [blockedSkillResultWithCurrent]⟩, rfl, rfl⟩
      · rw [if_neg hvalid, if_neg hvalid]
        exact ⟨_, _, rfl, ⟨rfl, rfl, rfl, by simp [blockedSkillResultWithCurrent],
          by simp [blockedSkillResultWithCurrent]⟩, rfl, rfl⟩

/-- An entry that is no directory is left alone; with valid metadata the status gives another
reason. -/
theorem syncOther_idle (hskill : files.skill = some .other) :
    ∃ r st, statusSkill sha256 files (some source) name version sourceID = .ok st ∧
      LeftAlone ((syncSkill sha256 calls source name version sourceID).run files) files r ∧
      (r.State = st.State ∧ r.Reason = st.Reason ↔
        (readSkillMetadata files.metadata name).State ≠ "valid") := by
  unfold syncSkill statusSkill
  rw [Prog.run_get_bind, hskill]
  have hcurrent : currentHash sha256 (some .other) = "" := rfl
  simp only [Option.isNone_some, Bool.false_eq_true, if_false, Option.map_some, Option.getD_some,
    hcurrent]
  by_cases hvalid : (readSkillMetadata files.metadata name).State = "valid"
  · obtain ⟨hhash, -, hfork⟩ := readSkillMetadata_valid hvalid
    have hleft : LeftAlone (Prog.run (pure (blockedSkillResult name "customized" "valid"
        "runtime_skill_shape_changed" (readSkillMetadata files.metadata name)) :
          SkillAction SkillResult) files) files _ :=
      ⟨rfl, rfl, rfl, by simp [blockedSkillResult, blockedSkillResultWithCurrent],
        by simp [blockedSkillResult, blockedSkillResultWithCurrent]⟩
    rw [if_pos hvalid, if_pos hvalid]
    by_cases hforked : (readSkillMetadata files.metadata name).State = "valid" ∧
        (readSkillMetadata files.metadata name).Ownership = "forked"
    · have hne : "" ≠ (readSkillMetadata files.metadata name).ForkHash := by
        intro hempty
        have := hfork hforked.2
        rw [← hempty] at this
        exact absurd this (by decide)
      rw [if_pos hforked, if_pos hne]
      refine ⟨_, _, rfl, hleft, ⟨fun h => ?_, fun h => absurd hvalid h⟩⟩
      exact absurd (show "customized" = "forked" from h.1) (by decide)
    · have hne : ¬ ((readSkillMetadata files.metadata name).State = "valid" ∧
          "" = (readSkillMetadata files.metadata name).Hash) := by
        rintro ⟨-, hempty⟩
        rw [← hempty] at hhash
        exact absurd hhash (by decide)
      rw [if_neg hforked, if_neg hne]
      refine ⟨_, _, rfl, hleft, ⟨fun h => ?_, fun h => absurd hvalid h⟩⟩
      exact absurd (show "runtime_skill_shape_changed" = "local_modifications_detected" from h.2)
        (by decide)
  · rw [if_neg hvalid, if_neg hvalid, if_neg fun h => hvalid h.1, if_neg fun h => hvalid h.1]
    exact ⟨_, _, rfl, ⟨rfl, rfl, rfl, by simp [blockedSkillResult, blockedSkillResultWithCurrent],
      by simp [blockedSkillResult, blockedSkillResultWithCurrent]⟩, ⟨fun _ => hvalid,
        fun _ => ⟨rfl, rfl⟩⟩⟩

/-- Where there is nothing to do, nothing is done. -/
theorem syncSkill_idle (h : ¬ Pending sha256 files source name) :
    ∃ r st, statusSkill sha256 files (some source) name version sourceID = .ok st ∧
      LeftAlone ((syncSkill sha256 calls source name version sourceID).run files) files r ∧
      (r.State = st.State ∧ r.Reason = st.Reason ↔ ¬ Misshapen files name) := by
  match hskill : files.skill with
  | none => exact absurd (Or.inl hskill) h
  | some .other =>
      obtain ⟨r, st, hst, hleft, hiff⟩ := @syncOther_idle sha256 files source name version sourceID
        calls hskill
      refine ⟨r, st, hst, hleft, hiff.trans ?_⟩
      exact ⟨fun hvalid hmis => hvalid hmis.2, fun hno hvalid => hno ⟨hskill, hvalid⟩⟩
  | some (.directory t) =>
      have hsame : ∀ u, Managed sha256 files name u →
          contentHash sha256 u = contentHash sha256 source := by
        intro u hu
        by_contra hne
        exact h (Or.inr ⟨u, hu, hne⟩)
      obtain ⟨r, st, hst, hleft, heq⟩ := @syncDirectory_idle sha256 files source name version
        sourceID calls t hskill hsame
      refine ⟨r, st, hst, ?_, ⟨fun _ hmis => ?_, fun _ => heq⟩⟩
      · unfold syncSkill
        rw [Prog.run_get_bind]
        dsimp only
        rw [hskill]
        exact hleft
      · cases hskill.symm.trans hmis.1

/-! ## The status predicts the synchronisation -/

/-- What the status says is what the synchronisation does. -/
structure Predicts (sha256 : Bytes → Sha256) (files : SkillFiles) (source : Dir)
    (name version sourceID : String) (o : Outcome SkillFiles String SkillResult)
    (st : SkillResult) : Prop where
  installs : (∃ r, o.result = .ok r ∧ r.Action = "installed") ↔ st.State = "new"
  updates : (∃ r, o.result = .ok r ∧ r.Action = "updated") ↔
    st.State = "managed" ∧ st.Action = "update_available"
  otherwise : st.State ≠ "new" → ¬ (st.State = "managed" ∧ st.Action = "update_available") →
    o.final = files ∧ ∃ r, o.result = .ok r ∧ r.State = st.State ∧ r.Reason = st.Reason
  settled : ∀ r, o.result = .ok r → r.Action = "installed" ∨ r.Action = "updated" →
    ∃ st', statusSkill sha256 o.final (some source) name version sourceID = .ok st' ∧
      st'.State = "managed" ∧ st'.Action = "unchanged"

/-- The status predicts the synchronisation if and only if the entry of valid metadata is no file
or link, and a source to be installed can be recorded. -/
theorem statusSkill_predicts : ∃ st,
    statusSkill sha256 files (some source) name version sourceID = .ok st ∧
      (Predicts sha256 files source name version sourceID
          ((syncSkill sha256 calls source name version sourceID).run files) st ↔
        ¬ Misshapen files name ∧ (Pending sha256 files source name →
          Recordable calls files source name version sourceID)) := by
  by_cases hpending : Pending sha256 files source name
  · obtain ⟨st, hst, hreports⟩ := @statusSkill_reports sha256 files source name version sourceID
    obtain ⟨hiff, haction⟩ := @syncSkill_pending sha256 files source name version sourceID calls
      hpending
    have hsettled := @statusSkill_reports sha256
      ((syncSkill sha256 calls source name version sourceID).run files).final source name version
      sourceID
    obtain ⟨st', hst', hreports'⟩ := hsettled
    have hshape : ¬ Misshapen files name := by
      rintro ⟨hother, -⟩
      rcases hpending with hnone | ⟨t, ht, -⟩
      · cases hother.symm.trans hnone
      · cases hother.symm.trans ht.skill
    refine ⟨st, hst, ⟨fun hp => ⟨hshape, fun _ => ?_⟩, fun h => ?_⟩⟩
    · have hdone : ∃ r, ((syncSkill sha256 calls source name version sourceID).run files).result =
          .ok r ∧ (r.Action = "installed" ∨ r.Action = "updated") := by
        by_cases hskill : files.skill = none
        · obtain ⟨r, hr, ha⟩ := hp.installs.mpr (hreports.new.mpr hskill)
          exact ⟨r, hr, Or.inl ha⟩
        · obtain ⟨r, hr, ha⟩ := hp.updates.mpr (hreports.update.mpr ⟨hskill, hpending⟩)
          exact ⟨r, hr, Or.inr ha⟩
      obtain ⟨r, hr, ha⟩ := hdone
      obtain ⟨st'', hst'', hstate⟩ := hp.settled r hr ha
      obtain rfl := Except.ok.inj (hst'.symm.trans hst'')
      exact hiff.mp ⟨⟨r, hr⟩, hreports'.unchanged.mp hstate⟩
    · obtain ⟨⟨r, hr⟩, hcurrent⟩ := hiff.mpr (h.2 hpending)
      obtain ⟨hinstalled, hupdated⟩ := haction r hr
      have hresult : ∀ r', ((syncSkill sha256 calls source name version sourceID).run files).result =
          .ok r' → r' = r := fun r' hr' => Except.ok.inj (hr'.symm.trans hr)
      refine ⟨⟨?_, ?_⟩, ⟨?_, ?_⟩, fun hnew hno => ?_,
        fun r' hr' _ => ⟨st', hst', hreports'.unchanged.mpr hcurrent⟩⟩
      · rintro ⟨r', hr', ha⟩
        obtain rfl := hresult r' hr'
        refine hreports.new.mpr (by_contra fun hskill => ?_)
        rw [hupdated hskill] at ha
        exact absurd ha (by decide)
      · exact fun hnew => ⟨r, hr, hinstalled (hreports.new.mp hnew)⟩
      · rintro ⟨r', hr', ha⟩
        obtain rfl := hresult r' hr'
        refine hreports.update.mpr ⟨fun hskill => ?_, hpending⟩
        rw [hinstalled hskill] at ha
        exact absurd ha (by decide)
      · exact fun hupdate => ⟨r, hr, hupdated (hreports.update.mp hupdate).1⟩
      · exact absurd (hreports.update.mpr ⟨fun hskill => hnew (hreports.new.mpr hskill), hpending⟩)
          hno
  · obtain ⟨r, st, hst, hleft, hiff⟩ := @syncSkill_idle sha256 files source name version sourceID
      calls hpending
    obtain ⟨st₁, hst₁, hreports⟩ := @statusSkill_reports sha256 files source name version sourceID
    obtain rfl := Except.ok.inj (hst.symm.trans hst₁)
    have hnew : st.State ≠ "new" := fun h => hpending (Or.inl (hreports.new.mp h))
    have hupdate : ¬ (st.State = "managed" ∧ st.Action = "update_available") :=
      fun h => hpending (hreports.update.mp h).2
    have hresult : ∀ r', ((syncSkill sha256 calls source name version sourceID).run files).result =
        .ok r' → r' = r := fun r' hr' => Except.ok.inj (hr'.symm.trans hleft.result)
    refine ⟨st, hst, ⟨fun hp => ⟨?_, fun h => absurd h hpending⟩, fun h => ?_⟩⟩
    · obtain ⟨-, r', hr', heq⟩ := hp.otherwise hnew hupdate
      obtain rfl := hresult r' hr'
      exact hiff.mp heq
    · refine ⟨⟨?_, fun h => absurd h hnew⟩, ⟨?_, fun h => absurd h hupdate⟩,
        fun _ _ => ⟨hleft.final, r, hleft.result, hiff.mpr h.1⟩, ?_⟩
      · rintro ⟨r', hr', ha⟩
        exact absurd (hresult r' hr' ▸ ha) hleft.notInstalled
      · rintro ⟨r', hr', ha⟩
        exact absurd (hresult r' hr' ▸ ha) hleft.notUpdated
      · rintro r' hr' (ha | ha)
        · exact absurd (hresult r' hr' ▸ ha) hleft.notInstalled
        · exact absurd (hresult r' hr' ▸ ha) hleft.notUpdated

/-- Sixty-four zeros. -/
def zeroSha256 (_ : Bytes) : Sha256 :=
  ⟨String.ofList (List.replicate 64 '0'), zeros_hex⟩

def exampleCalls : SyncCalls := ⟨[.empty], [.empty], fun _ => [], ⟨"2025-01-01T00:00:00Z", by decide⟩,
  none⟩

def exampleMetadata : SkillMetadata :=
  { newMetadata exampleCalls "example" (contentHash zeroSha256 .empty) "1" "release" with
    PatchSHA256 := contentHash zeroSha256 .empty }

/-- A file has taken the place of a managed skill. -/
def misshapenSkill : SkillFiles :=
  ⟨some .other, some (.directory .empty), none, some (some exampleMetadata)⟩

theorem misshapen_not_predicted : ∃ st,
    statusSkill zeroSha256 misshapenSkill (some .empty) "example" "1" "release" = .ok st ∧
      ¬ Predicts zeroSha256 misshapenSkill .empty "example" "1" "release"
        ((syncSkill zeroSha256 exampleCalls .empty "example" "1" "release").run misshapenSkill)
        st := by
  have hvalid : (readSkillMetadata misshapenSkill.metadata "example").State = "valid" := by
    have hnew := (@validSkillMetadata_new "example" "1" "release" exampleCalls
      (contentHash zeroSha256 .empty) "2025-01-01T00:00:00Z" (contentHash zeroSha256 .empty)
      (contentHash_valid _) (by decide) (contentHash_valid _)).mpr ⟨by decide, by decide⟩
    have hread : readSkillMetadata misshapenSkill.metadata "example" =
        metadataInfoFromMetadata exampleMetadata := by
      unfold readSkillMetadata misshapenSkill
      exact if_pos hnew
    rw [hread]
    rfl
  obtain ⟨r, st, hst, hleft, hiff⟩ := @syncOther_idle zeroSha256 misshapenSkill .empty "example" "1"
    "release" exampleCalls rfl
  obtain ⟨st', hst', hreports⟩ := @statusSkill_reports zeroSha256 misshapenSkill .empty "example" "1"
    "release"
  obtain rfl := Except.ok.inj (hst.symm.trans hst')
  refine ⟨st, hst, fun h => ?_⟩
  have hnew : st.State ≠ "new" := fun h => by cases hreports.new.mp h
  have hupdate : ¬ (st.State = "managed" ∧ st.Action = "update_available") := by
    intro h
    rcases (hreports.update.mp h).2 with hnone | ⟨t, ht, -⟩
    · cases hnone
    · cases ht.skill
  obtain ⟨-, r', hr', heq⟩ := h.otherwise hnew hupdate
  obtain rfl := Except.ok.inj (hleft.result.symm.trans hr')
  exact hiff.mp heq hvalid

end Openlia.Skills
