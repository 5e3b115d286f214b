import Openlia.Ingestion.CaptureRetry
import Openlia.Ingestion.Service

/-! # What a capture leaves in the tables

A call may stop behind any write. Of the jobs it takes those of the older versions and adds one;
of the intakes it touches its own; the record is the one before or the new one.
-/

namespace Openlia.Ingestion

open Lib Crash

theorem nextVersionId_ne_empty (existing : List Version) : nextVersionId existing ≠ "" := by
  unfold nextVersionId
  split
  · decide
  · intro h
    have hn := versionNumber_versionName
      ((existing.foldl (fun n v => max n ((versionNumber v.id).getD 0)) existing.length) + 1)
    rw [h] at hn
    cases hn

variable {py : Python} {before v : Vault} {request : CaptureRequest} {fresh : Fresh}
  {sourceId versionId : String} {existing : Option Source} {version : Option Version}

/-- A capture deletes this job. -/
def Deletes (v : Vault) (request : CaptureRequest) (sourceId versionId : String) (j : Job) :
    Prop :=
  ∃ old, v.sources.get sourceId = some old ∧ j.sourceId = sourceId ∧
    if request.purgePreviousVersions then
      ∃ w ∈ old.versions, w.id ≠ "" ∧ w.id ≠ versionId ∧ j.versionId = some w.id
    else j.active = true ∧ j.versionId ≠ some versionId

/-- No record has changed, and no job is gone but those of older versions. -/
structure Superseding (before : Vault) (request : CaptureRequest) (sourceId versionId : String)
    (v : Vault) : Prop where
  sources : v.sources = before.sources
  intakes : v.intakes = before.intakes
  fewer : ∀ j ∈ v.jobs.rows, j ∈ before.jobs.rows
  kept : ∀ j ∈ before.jobs.rows, ¬ Deletes before request sourceId versionId j → j ∈ v.jobs.rows

theorem Superseding.refl (v : Vault) : Superseding v request sourceId versionId v :=
  ⟨rfl, rfl, fun _ h => h, fun _ h _ => h⟩

/-- A write to the blobs or the search rows. -/
theorem Superseding.of_eq (h : Superseding before request sourceId versionId v) {w : Vault}
    (hs : w.sources = v.sources) (hi : w.intakes = v.intakes) (hj : w.jobs = v.jobs) :
    Superseding before request sourceId versionId w := by
  refine ⟨hs.trans h.sources, hi.trans h.intakes, ?_, ?_⟩
  · rw [hj]
    exact h.fewer
  · rw [hj]
    exact h.kept

/-- The jobs that a statement deletes are among those that the call deletes. -/
theorem Superseding.delete (h : Superseding before request sourceId versionId v)
    {p : Job → Bool}
    (hp : ∀ j ∈ before.jobs.rows, p j = true → Deletes before request sourceId versionId j) :
    Superseding before request sourceId versionId { v with jobs := v.jobs.delete p } := by
  refine ⟨h.sources, h.intakes, fun j hj => h.fewer j (Table.mem_delete.mp hj).1, ?_⟩
  intro j hj hno
  refine Table.mem_delete.mpr ⟨h.kept j hj hno, ?_⟩
  cases hpj : p j with
  | true => exact absurd (hp j hj hpj) hno
  | false => rfl

/-! ## Before the record is saved -/

/-- The tables are as they were. -/
def SameTables (before v : Vault) : Prop :=
  v.sources = before.sources ∧ v.intakes = before.intakes ∧ v.jobs = before.jobs

theorem captureOriginal_tables :
    Spec (· = before) (captureOriginal py request fresh sourceId versionId) (SameTables before)
      (fun r v => SameTables before v ∧ ∀ captured, r = .ok captured →
        (∀ w ∈ captured.1, w.id = versionId) ∧
          (request.kind ≠ "youtube" → captured.1.isSome = true)) := by
  unfold captureOriginal
  refine Spec.ite (fun hkind => Spec.ite (fun hurl => Spec.pure ?_) fun hurl => Spec.fail ?_)
    fun hkind => ?_
  · rintro v rfl
    refine ⟨⟨rfl, rfl, rfl⟩, ?_⟩
    rintro _ ⟨⟩
    exact ⟨fun w hw => (by cases hw), fun h => absurd hkind h⟩
  · rintro v rfl
    refine ⟨⟨rfl, rfl, rfl⟩, ?_⟩
    rintro _ ⟨⟩
  · cases request.input with
    | error e =>
        refine Spec.fail ?_
        rintro v rfl
        refine ⟨⟨rfl, rfl, rfl⟩, ?_⟩
        rintro _ ⟨⟩
    | ok input =>
        have hwrite : Spec (· = before) (writeImmutable (originalKey sourceId versionId input)
            input.data) (SameTables before) (fun _ v => SameTables before v) := by
          refine Spec.get_bind ?_
          rintro before rfl
          have hsame : ∀ v, v = before → SameTables before v := by
            rintro v rfl
            exact ⟨rfl, rfl, rfl⟩
          split
          · exact Spec.ite (fun _ => Spec.pure hsame) fun _ => Spec.fail hsame
          · refine Spec.write ?_ ?_ <;>
              · rintro v rfl
                exact ⟨rfl, rfl, rfl⟩
        refine Spec.bind hwrite (fun _ => Spec.pure fun v hv => ⟨hv, ?_⟩) fun e v hv => ⟨hv, ?_⟩
        · rintro _ ⟨⟩
          refine ⟨fun w hw => ?_, fun _ => rfl⟩
          cases hw
          rfl
        · rintro _ ⟨⟩

theorem purgeVersions_tables {old : Source} (hold : before.sources.get sourceId = some old)
    (hpurge : request.purgePreviousVersions = true) {versions : List Version}
    (hsub : ∀ w ∈ versions, w ∈ old.versions) :
    Preserves (Superseding before request sourceId versionId)
      (purgeVersions sourceId versionId versions) := by
  have hblobs : ∀ keys, Preserves (Superseding before request sourceId versionId)
      (removeBlobs keys) := by
    intro keys
    induction keys with
    | nil => exact Preserves.pure ()
    | cons key rest ih =>
        exact Preserves.bind (Preserves.write fun v hv => hv.of_eq rfl rfl rfl) fun _ => ih
  induction versions with
  | nil => exact Preserves.pure ()
  | cons w rest ih =>
      have ih := ih fun w hw => hsub w (List.mem_cons_of_mem _ hw)
      unfold purgeVersions
      refine Preserves.ite (fun hne => ?_) fun _ => ih
      refine Preserves.bind (Preserves.write fun v hv => hv.delete fun j _ hj => ?_) fun _ =>
        Preserves.bind (Preserves.get_bind fun v hv => ?_) fun _ => ih
      · simp only [Bool.and_eq_true, decide_eq_true_eq] at hj
        refine ⟨old, hold, hj.1, ?_⟩
        rw [if_pos hpurge]
        exact ⟨w, hsub w List.mem_cons_self, hne.1, hne.2, hj.2⟩
      · exact (hblobs _).conseq (fun s hs => hs ▸ hv) (fun _ h => h) fun _ _ h => h

theorem captureSource_tables (hversion : versionId ≠ "")
    (hexisting : ∀ old ∈ existing, before.sources.get sourceId = some old)
    (hrecord : (existing.map fun s => s.versions).getD [] = recorded before sourceId) :
    Spec (SameTables before) (captureSource py request fresh sourceId versionId existing version)
      (Superseding before request sourceId versionId)
      (fun r v => Superseding before request sourceId versionId v ∧
        ∀ source, r = .ok source → source.id = sourceId ∧
          source.versions = remaining before request sourceId versionId ++ version.toList) := by
  have hstart : ∀ v, SameTables before v → Superseding before request sourceId versionId v :=
    fun v hv => (Superseding.refl before).of_eq hv.1 hv.2.1 hv.2.2
  unfold captureSource
  cases existing with
  | none =>
      refine Spec.pure fun v hv => ⟨hstart v hv, ?_⟩
      rintro _ ⟨⟩
      refine ⟨rfl, ?_⟩
      unfold remaining
      rw [← hrecord]
      simp [newSource]
  | some old =>
      have hold := hexisting old rfl
      have hid : old.id = sourceId := Table.key_of_get hold
      simp only [Option.map_some, Option.getD_some] at hrecord
      refine Spec.conseq (P := Superseding before request sourceId versionId) ?_ hstart
        (fun _ h => h) fun _ _ h => h
      refine Spec.ite (fun hpurge => ?_) fun hpurge => ?_
      · refine Spec.bind (purgeVersions_tables hold hpurge fun w hw => hw)
          (fun _ => Spec.pure fun v hv => ⟨hv, ?_⟩) fun e v hv => ⟨hv, ?_⟩
        · rintro _ ⟨⟩
          refine ⟨hid, ?_⟩
          unfold remaining
          rw [if_pos hpurge]
          rfl
        · rintro _ ⟨⟩
      · have hcancel : Preserves (Superseding before request sourceId versionId)
            (Prog.write (cancelOtherJobs sourceId versionId) : VaultAction Unit) := by
          refine Preserves.write fun v hv => hv.delete fun j _ hj => ?_
          have hfilter : (some versionId).filter (· ≠ "") = some versionId := by simp [hversion]
          rw [hfilter] at hj
          simp only [Bool.and_eq_true, decide_eq_true_eq] at hj
          refine ⟨old, hold, hj.1.1, ?_⟩
          rw [if_neg hpurge]
          exact ⟨hj.1.2, hj.2⟩
        refine Spec.bind hcancel (fun _ => Spec.pure fun v hv => ⟨hv, ?_⟩) fun e v hv => ⟨hv, ?_⟩
        · rintro _ ⟨⟩
          refine ⟨hid, ?_⟩
          unfold remaining
          rw [if_neg hpurge, ← hrecord]
          rfl
        · rintro _ ⟨⟩

/-! ## Behind the save of the record -/

/-- The intake of the call. -/
def OwnRow (intakeId sourceId versionId : String) (row : IntakeRow) : Prop :=
  row.record.intakeId = intakeId ∧ row.record.sourceId = sourceId ∧
    row.record.versionId = versionId ∧ row.sourceId = sourceId

/-- The record is the new one; there may be the intake and a job of the call. -/
structure Recording (before : Vault) (request : CaptureRequest)
    (intakeId sourceId versionId : String) (version : Option Version) (v : Vault) : Prop where
  record : recorded v sourceId =
    remaining before request sourceId versionId ++ version.toList
  others : ∀ id, id ≠ sourceId → v.sources.get id = before.sources.get id
  rows : ∀ row ∈ v.intakes.rows, row ∈ before.intakes.rows ∨
    OwnRow intakeId sourceId versionId row
  jobs : ∀ j ∈ v.jobs.rows, j ∈ before.jobs.rows ∨ j.intakeId = intakeId ∧ j.sourceId = sourceId
  kept : ∀ j ∈ before.jobs.rows, ¬ Deletes before request sourceId versionId j → j ∈ v.jobs.rows

section Recording

variable {intakeId : String} {source : Source} {intake : Intake}

theorem get_saveSource (source : Source) (v : Vault) (id : String) :
    (saveSource source v).sources.get id =
      if source.id = id then some source else v.sources.get id :=
  Table.get_upsert _ _ _

theorem recorded_saveSource_of_ne {id : String} (h : source.id ≠ id) :
    recorded (saveSource source v) id = recorded v id := by
  unfold recorded
  rw [get_saveSource, if_neg h]

theorem Superseding.saveSource (h : Superseding before request sourceId versionId v)
    (hid : source.id = sourceId) (hversions : source.versions =
      remaining before request sourceId versionId ++ version.toList) :
    Recording before request intakeId sourceId versionId version
      (Ingestion.saveSource source v) where
  record := by
    have hrecord := recorded_saveSource source v
    rw [hid] at hrecord
    rw [hrecord, hversions]
  others := fun id hne => by
    rw [get_saveSource, if_neg (by rw [hid]; exact hne.symm), h.sources]
  rows := fun row hrow => Or.inl (h.intakes ▸ hrow)
  jobs := fun j hj => Or.inl (h.fewer j hj)
  kept := h.kept

theorem Recording.saveSource
    (h : Recording before request intakeId sourceId versionId version v)
    (hid : source.id = sourceId) (hversions : source.versions =
      remaining before request sourceId versionId ++ version.toList) :
    Recording before request intakeId sourceId versionId version
      (Ingestion.saveSource source v) where
  record := by
    have hrecord := recorded_saveSource source v
    rw [hid] at hrecord
    rw [hrecord, hversions]
  others := fun id hne => by
    rw [get_saveSource, if_neg (by rw [hid]; exact hne.symm), h.others id hne]
  rows := h.rows
  jobs := h.jobs
  kept := h.kept

theorem Recording.of_eq (h : Recording before request intakeId sourceId versionId version v)
    {w : Vault} (hs : w.sources = v.sources) (hi : w.intakes = v.intakes)
    (hj : w.jobs = v.jobs) :
    Recording before request intakeId sourceId versionId version w where
  record := (recorded_of_sources hs sourceId).trans h.record
  others := by
    rw [hs]
    exact h.others
  rows := by
    rw [hi]
    exact h.rows
  jobs := by
    rw [hj]
    exact h.jobs
  kept := by
    rw [hj]
    exact h.kept

theorem Recording.saveIntake
    (h : Recording before request intakeId sourceId versionId version v)
    (habsent : ∀ row ∈ before.intakes.rows, row.record.intakeId ≠ intakeId)
    (hid : intake.intakeId = intakeId) (hsource : intake.sourceId = sourceId)
    (hversion : intake.versionId = versionId) :
    Recording before request intakeId sourceId versionId version
      (Ingestion.saveIntake intake v) where
  record := h.record
  others := h.others
  rows := by
    intro row hrow
    rcases Table.mem_upsert.mp hrow with rfl | ⟨hrow, -⟩
    · refine Or.inr ⟨hid, hsource, hversion, ?_⟩
      -- A row of this id is one of the call, so that its column is the one of the call.
      cases hget : v.intakes.get intake.intakeId with
      | none => exact hsource
      | some row =>
          rcases h.rows row (Table.mem_of_get hget) with hrow | hrow
          · exact absurd ((Table.key_of_get hget).trans hid) (habsent row hrow)
          · exact hrow.2.2.2
    · exact h.rows row hrow
  jobs := h.jobs
  kept := h.kept

/-- A submission finds a job of its key or inserts one. -/
theorem submit_ok {t t' : JobTable} {submitted : SubmitRequest} {jobId : String} {now : Timestamp}
    {job : Job} (h : submit t submitted jobId now = .ok (job, t')) :
    t' = t ∧ getByIdempotency t submitted.idempotencyKey = some job ∨
      job = submitted.row jobId now ∧ t.insert job = some t' := by
  unfold submit at h
  split at h
  · rename_i existing hget
    cases h
    exact Or.inl ⟨rfl, hget⟩
  · split at h
    · cases h
    · rename_i hinsert
      cases h
      exact Or.inr ⟨rfl, hinsert⟩

theorem Recording.submit
    (h : Recording before request intakeId sourceId versionId version v)
    {submitted : SubmitRequest} {jobId : String} {now : Timestamp} {job : Job} {jobs : JobTable}
    (hid : submitted.intakeId = intakeId) (hsource : submitted.sourceId = sourceId)
    (hsubmit : Ingestion.submit v.jobs submitted jobId now = .ok (job, jobs)) :
    Recording before request intakeId sourceId versionId version { v with jobs } := by
  rcases submit_ok hsubmit with ⟨rfl, -⟩ | ⟨rfl, hinsert⟩
  · exact h
  · refine ⟨h.record, h.others, h.rows, fun j hj => ?_, fun j hj hno => ?_⟩
    · rcases (Table.mem_insert hinsert).mp hj with hj | rfl
      · exact h.jobs j hj
      · exact Or.inr ⟨hid, hsource⟩
    · exact (Table.mem_insert hinsert).mpr (Or.inl (h.kept j hj hno))

end Recording

/-! ## The call -/

/-- A version is captured, unless the request is for a video. -/
def VersionOf (request : CaptureRequest) (versionId : String) (version : Option Version) : Prop :=
  (∀ w ∈ version, w.id = versionId) ∧ (request.kind ≠ "youtube" → version.isSome = true)

/-- The intake that a call is for. -/
def callIntake (request : CaptureRequest) (fresh : Fresh) : String :=
  orDefault request.intakeId fresh.intakeId

def callVersion (v : Vault) (request : CaptureRequest) (fresh : Fresh) : String :=
  targetVersion v request (requestedSource request fresh)

/-- Where a call may stop. -/
def Left (before : Vault) (request : CaptureRequest) (fresh : Fresh) (v : Vault) : Prop :=
  Superseding before request (requestedSource request fresh) (callVersion before request fresh) v ∨
    ∃ version, VersionOf request (callVersion before request fresh) version ∧
      Recording before request (callIntake request fresh) (requestedSource request fresh)
        (callVersion before request fresh) version v

/-- The record is saved, and no job is submitted. -/
def Unsubmitted (before : Vault) (request : CaptureRequest) (fresh : Fresh)
    (version : Option Version) (v : Vault) : Prop :=
  Recording before request (callIntake request fresh) (requestedSource request fresh)
      (callVersion before request fresh) version v ∧
    ∀ j ∈ v.jobs.rows, j ∈ before.jobs.rows

/-- What a capture that succeeds hands on. -/
structure HandedOn (before : Vault) (request : CaptureRequest) (fresh : Fresh)
    (captured : Captured) (version : Option Version) (v : Vault) : Prop where
  kind : VersionOf request (callVersion before request fresh) version
  unsubmitted : Unsubmitted before request fresh version v
  source : captured.source.id = requestedSource request fresh
  versions : captured.source.versions = remaining before request (requestedSource request fresh)
    (callVersion before request fresh) ++ version.toList
  intake : captured.intake.intakeId = callIntake request fresh
  intakeSource : captured.intake.sourceId = requestedSource request fresh
  intakeVersion : captured.intake.versionId = callVersion before request fresh

theorem checkCapture_ids
    (h : checkCapture v request fresh = .ok (sourceId, versionId, existing)) :
    versionId ≠ "" ∧ ∀ old ∈ existing, v.sources.get sourceId = some old := by
  unfold checkCapture at h
  split at h
  · cases h
  · obtain ⟨⟨s, ex⟩, hsource, h⟩ := Lib.except_bind_ok h
    obtain ⟨vid, hversion, h⟩ := Lib.except_bind_ok h
    cases h
    refine ⟨?_, ?_⟩
    · unfold resolveVersion at hversion
      split at hversion
      · cases hversion
        exact nextVersionId_ne_empty _
      · dsimp only at hversion
        split at hversion
        · rename_i hsafe
          cases hversion
          intro hempty
          rw [hempty] at hsafe
          cases hsafe
        · cases hversion
    · unfold resolveSource at hsource
      split at hsource
      · cases hsource
        rintro old ⟨⟩
      · dsimp only at hsource
        split at hsource
        · cases hsource
          exact fun old hold => hold
        · cases hsource

/-- The writes of a capture from the save of the record on. -/
theorem index_tables {source : Source} {content : String} {captured : Captured}
    (habsent : ∀ row ∈ before.intakes.rows, row.record.intakeId ≠ callIntake request fresh)
    (hkind : VersionOf request (callVersion before request fresh) version)
    (hid : source.id = requestedSource request fresh)
    (hversions : source.versions = remaining before request (requestedSource request fresh)
      (callVersion before request fresh) ++ version.toList)
    (hcaptured : captured.source = source ∧ captured.intake = newIntake request fresh
      (requestedSource request fresh) (callVersion before request fresh)) :
    Spec (Superseding before request (requestedSource request fresh)
        (callVersion before request fresh))
      (do
        Prog.write (saveSource source)
        upsertSourceFts source content "captured"
        Prog.write (saveIntake captured.intake)
        pure captured : VaultAction Captured)
      (Left before request fresh)
      (fun r v => r = .ok captured ∧ HandedOn before request fresh captured version v) := by
  have hwrite : ∀ {f : Vault → Vault} {P : Vault → Prop},
      (∀ v, P v → Unsubmitted before request fresh version (f v)) →
      Spec P (Prog.write f : VaultAction Unit) (Left before request fresh)
        (fun r v => r = .ok () ∧ Unsubmitted before request fresh version v) :=
    fun hf => Spec.write (fun v hv => Or.inr ⟨version, hkind, (hf v hv).1⟩)
      fun v hv => ⟨rfl, hf v hv⟩
  have hfts : Spec (Unsubmitted before request fresh version)
      (upsertSourceFts source content "captured") (Left before request fresh)
      (fun r v => r = .ok () ∧ Unsubmitted before request fresh version v) :=
    Spec.seq (hwrite fun v hv => ⟨hv.1.of_eq rfl rfl rfl, hv.2⟩)
      (hwrite fun v hv => ⟨hv.1.of_eq rfl rfl rfl, hv.2⟩)
  have hintake : Spec (Unsubmitted before request fresh version)
      (Prog.write (saveIntake captured.intake) : VaultAction Unit) (Left before request fresh)
      (fun r v => r = .ok () ∧ Unsubmitted before request fresh version v) := by
    rw [hcaptured.2]
    exact hwrite fun v hv => ⟨hv.1.saveIntake habsent rfl rfl rfl, hv.2⟩
  refine Spec.seq (hwrite fun v hv => ⟨hv.saveSource hid hversions, hv.fewer⟩)
    (Spec.seq hfts (Spec.seq hintake (Spec.pure fun v hv => ⟨rfl, hkind, hv, ?_, ?_, ?_, ?_, ?_⟩)))
  · rw [hcaptured.1]
    exact hid
  · rw [hcaptured.1]
    exact hversions
  · rw [hcaptured.2]
    rfl
  · rw [hcaptured.2]
    rfl
  · rw [hcaptured.2]
    rfl

theorem capture_tables
    (hnew : request.sourceId = none → before.sources.get fresh.sourceId = none)
    (habsent : ∀ row ∈ before.intakes.rows, row.record.intakeId ≠ callIntake request fresh) :
    Spec (· = before) (capture py request fresh) (Left before request fresh)
      (fun r v => Left before request fresh v ∧
        (∀ e, r = .error e → Superseding before request (requestedSource request fresh)
          (callVersion before request fresh) v) ∧
        ∀ captured, r = .ok captured →
          ∃ version, HandedOn before request fresh captured version v) := by
  have hsame : ∀ v, SameTables before v → Superseding before request
      (requestedSource request fresh) (callVersion before request fresh) v :=
    fun v hv => (Superseding.refl before).of_eq hv.1 hv.2.1 hv.2.2
  refine Spec.get_bind ?_
  rintro before rfl
  refine Spec.bind Spec.lift ?_ ?_
  · rintro ⟨sourceId, versionId, existing⟩
    refine Spec.of_pre ?_
    rintro v ⟨rfl, hcheck⟩
    obtain ⟨rfl, rfl, hrecord, -⟩ := checkCapture_ok hnew hcheck.symm
    obtain ⟨hversion, hexisting⟩ := checkCapture_ids hcheck.symm
    refine Spec.bind (captureOriginal_tables.conseq (fun _ h => h)
      (fun v hv => Or.inl (hsame v hv)) fun _ _ h => h) ?_ ?_
    · rintro ⟨version, content⟩
      refine Spec.of_pre ?_
      rintro w ⟨hw, hkind⟩
      refine Spec.bind ((@captureSource_tables py v request fresh _ _ _ version hversion
        hexisting hrecord).conseq (fun t ht => ht ▸ hw) (fun t ht => Or.inl ht)
        fun _ _ h => h) (fun source => Spec.of_pre ?_) ?_
      · rintro t ⟨ht, hsource⟩
        obtain ⟨hid, hversions⟩ := hsource source rfl
        refine (@index_tables v request fresh version source _ ⟨source, _, version⟩ habsent
          (hkind _ rfl) hid
          hversions ⟨rfl, rfl⟩).conseq (fun u hu => hu ▸ ht) (fun _ h => h) ?_
        rintro r u ⟨rfl, hu⟩
        refine ⟨Or.inr ⟨version, hu.kind, hu.unsubmitted.1⟩, ?_, ?_⟩
        · rintro _ ⟨⟩
        · rintro _ ⟨⟩
          exact ⟨version, hu⟩
      · rintro e t ⟨ht, -⟩
        refine ⟨Or.inl ht, fun _ _ => ht, ?_⟩
        rintro _ ⟨⟩
    · rintro e t ⟨ht, -⟩
      refine ⟨Or.inl (hsame t ht), fun _ _ => hsame t ht, ?_⟩
      rintro _ ⟨⟩
  · rintro e t ⟨rfl, -⟩
    refine ⟨Or.inl (Superseding.refl _), fun _ _ => Superseding.refl _, ?_⟩
    rintro _ ⟨⟩

variable {call : EnqueueCall}

/-- The record is saved, and the intake has a job when the id of the job was new. -/
def Submitted (before : Vault) (call : EnqueueCall) (version : Option Version) (v : Vault) : Prop :=
  Recording before call.request (callIntake call.request call.fresh)
      (requestedSource call.request call.fresh) (callVersion before call.request call.fresh)
      version v ∧
    ((∀ j ∈ before.jobs.rows, j.jobId ≠ call.jobId) →
      ∃ j ∈ v.jobs.rows, j.intakeId = callIntake call.request call.fresh)

theorem submitJob_tables {submitted : SubmitRequest}
    (hkey : getByIdempotency before.jobs submitted.idempotencyKey = none)
    (hintake : submitted.intakeId = callIntake call.request call.fresh)
    (hsource : submitted.sourceId = requestedSource call.request call.fresh) :
    Spec (Unsubmitted before call.request call.fresh version)
      (submitJob submitted call.jobId call.now)
      (Submitted before call version) (fun _ v => Submitted before call version v) := by
  refine Spec.get_bind fun v hv => ?_
  obtain ⟨hrecording, hfewer⟩ := hv
  have hnokey : getByIdempotency v.jobs submitted.idempotencyKey = none := by
    unfold getByIdempotency at hkey ⊢
    rw [List.find?_eq_none] at hkey ⊢
    exact fun j hj => hkey j (hfewer j hj)
  cases hsubmit : submit v.jobs submitted call.jobId call.now with
  | error e =>
      refine Spec.fail ?_
      rintro v rfl
      refine ⟨hrecording, fun hfree => ?_⟩
      unfold submit at hsubmit
      rw [hnokey] at hsubmit
      obtain ⟨t', ht'⟩ := (@Table.insert_isSome _ _ _ _ v.jobs
        (submitted.row call.jobId call.now)).mpr fun j hj => hfree j (hfewer j hj)
      rw [ht'] at hsubmit
      cases hsubmit
  | ok result =>
      obtain ⟨job, jobs⟩ := result
      have hsubmitted : Submitted before call version { v with jobs } := by
        refine ⟨hrecording.submit hintake hsource hsubmit, fun _ => ?_⟩
        rcases submit_ok hsubmit with ⟨-, hget⟩ | ⟨rfl, hinsert⟩
        · rw [hnokey] at hget
          cases hget
        · exact ⟨_, (Table.mem_insert hinsert).mpr (Or.inr rfl), hintake⟩
      refine Spec.bind (Q := fun _ w => Submitted before call version w)
        (Spec.write ?_ ?_) (fun _ => Spec.pure fun _ h => h) fun _ _ h => h
      · rintro v rfl
        exact hsubmitted
      · rintro v rfl
        exact hsubmitted

theorem enqueueCaptured_tables {captured : Captured}
    (habsent : ∀ row ∈ before.intakes.rows,
      row.record.intakeId ≠ callIntake call.request call.fresh)
    (hkey : getByIdempotency before.jobs call.idempotencyKey = none)
    (hhanded : HandedOn before call.request call.fresh captured version v) :
    Spec (· = v) (enqueueCaptured call captured) (Submitted before call version)
      (fun _ w => Submitted before call version w) := by
  refine Spec.bind ((submitJob_tables hkey hhanded.intake hhanded.intakeSource).conseq
    (fun w hw => hw ▸ hhanded.unsubmitted) (fun _ h => h) fun _ _ h => h) (fun job => ?_)
    fun _ _ h => h
  refine Preserves.bind ?_ fun _ => Preserves.bind ?_ fun _ => Preserves.bind ?_ fun _ =>
    Preserves.pure _
  · refine Preserves.ite (fun _ => Preserves.write fun w hw => ?_) fun _ => Preserves.fail _
    exact ⟨hw.1.saveIntake habsent hhanded.intake hhanded.intakeSource hhanded.intakeVersion, hw.2⟩
  · refine Preserves.ite (fun _ => Preserves.write fun w hw => ?_) fun _ => Preserves.fail _
    exact ⟨hw.1.saveSource hhanded.source hhanded.versions, hw.2⟩
  · refine Preserves.get_bind fun w hw => ?_
    have hfts : ∀ source content, Preserves (Submitted before call version)
        (upsertSourceFts source content "queued") := fun source content =>
      Preserves.bind (Preserves.write fun w hw => ⟨hw.1.of_eq rfl rfl rfl, hw.2⟩) fun _ =>
        Preserves.write fun w hw => ⟨hw.1.of_eq rfl rfl rfl, hw.2⟩
    exact (hfts _ _).conseq (fun u hu => hu ▸ hw) (fun _ h => h) fun _ _ h => h

/-- Without a crash the intake of a call has a job. -/
def Settled (before : Vault) (call : EnqueueCall) (v : Vault) : Prop :=
  (∀ j ∈ before.jobs.rows, j.jobId ≠ call.jobId) →
    (∀ row ∈ v.intakes.rows, row ∈ before.intakes.rows) ∨
      ∃ j ∈ v.jobs.rows, j.intakeId = callIntake call.request call.fresh

theorem captureAndEnqueue_tables
    (hnew : call.request.sourceId = none → before.sources.get call.fresh.sourceId = none)
    (habsent : ∀ row ∈ before.intakes.rows,
      row.record.intakeId ≠ callIntake call.request call.fresh) :
    Spec (· = before) (captureAndEnqueue py call) (Left before call.request call.fresh)
      (fun _ v => Left before call.request call.fresh v ∧ Settled before call v) := by
  refine Spec.get_bind ?_
  rintro before rfl
  cases hkey : getByIdempotency before.jobs call.idempotencyKey with
  | some existing =>
      refine Spec.pure ?_
      rintro v rfl
      exact ⟨Or.inl (Superseding.refl _), fun _ => Or.inl fun _ h => h⟩
  | none =>
      refine Spec.bind (capture_tables hnew habsent) (fun captured => Spec.of_pre ?_) ?_
      · rintro v ⟨-, -, hok⟩
        obtain ⟨version, hhanded⟩ := hok captured rfl
        exact (enqueueCaptured_tables habsent hkey hhanded).conseq (fun _ h => h)
          (fun w hw => Or.inr ⟨version, hhanded.kind, hw.1⟩)
          fun _ w hw => ⟨Or.inr ⟨version, hhanded.kind, hw.1⟩, fun hfree => Or.inr (hw.2 hfree)⟩
      · rintro e v ⟨hleft, herror, -⟩
        refine ⟨hleft, fun _ => Or.inl ?_⟩
        rw [(herror e rfl).intakes]
        exact fun _ h => h

end Openlia.Ingestion
