import Openlia.Ingestion.Enqueued
import Openlia.Lib.Runs

/-! # Recovery over a history

Calls on the vault come one after the other and may stop behind any write. A worker reads a record
and writes its copy back any time later, whatever has happened in between.
-/

namespace Openlia.Ingestion

open Lib Crash

/-- The vault, and the records that somebody has read. -/
structure VaultSystem where
  vault : Vault
  intakes : List Intake
  sources : List Source

/-- What a worker or a user changes of a record that was read. -/
structure SourceEdit where
  edit : Source → Source
  edit_id : ∀ s, (edit s).id = s.id
  edit_versions : ∀ s, (edit s).versions.map Version.id = s.versions.map Version.id

/-- A statement on the jobs; `job` is a row as somebody has read it. -/
inductive JobAction where
  | claim (owner : String) (pick : Nat)
  | heartbeat (jobId owner : String) (generation : Nat)
  | finish (job : Job) (completed : Bool) (result : String)
  | fail (job : Job) (code summary : String) (retryable : Bool)
  | blockForPassword (job : Job) (code summary : String)
  | requeue (jobId : String) (passwordProfile : Option String)

def JobAction.apply (t : JobTable) (now : Timestamp) : JobAction → JobTable
  | .claim owner pick => (Ingestion.claim t owner now pick).2
  | .heartbeat jobId owner generation => (Ingestion.heartbeat t jobId owner generation now).2
  | .finish job completed result => (Ingestion.finish t job completed result now).2
  | .fail job code summary retryable => (Ingestion.fail t job code summary retryable now).2
  | .blockForPassword job code summary => (Ingestion.blockForPassword t job code summary now).2
  | .requeue jobId passwordProfile => requeueJob t jobId passwordProfile now

/-- `copy` is the position of a record that was read; `crash` counts the writes of a call that
stops. -/
inductive ServiceStep where
  | enqueue (call : EnqueueCall) (crash : Option Nat)
  | recover (now : Timestamp) (newId : String → String) (crash : Option Nat)
  | cancel (sourceId reason : String) (now : Timestamp)
  | delete (sourceId : String) (crash : Option Nat)
  | job (action : JobAction) (now : Timestamp)
  | loadIntake (intakeId : String)
  | updateIntake (copy : Nat) (status : String) (lastError : Option String)
  | loadSource (sourceId : String)
  | updateSource (copy : Nat) (edit : SourceEdit)

def VaultSystem.step (py : Python) (s : VaultSystem) : ServiceStep → Option VaultSystem
  | .enqueue call crash =>
      ((captureAndEnqueue py call).halt s.vault crash).map fun vault => { s with vault }
  | .recover now newId crash =>
      ((recoverVault now newId).halt s.vault crash).map fun vault => { s with vault }
  | .cancel sourceId reason now =>
      (cancelProcessing sourceId reason now s.vault).map fun vault => { s with vault }
  | .delete sourceId crash =>
      ((deleteSource sourceId).halt s.vault crash).map fun vault => { s with vault }
  | .job action now =>
      some { s with vault := { s.vault with jobs := action.apply s.vault.jobs now } }
  | .loadIntake intakeId =>
      (s.vault.intakes.get intakeId).map fun row =>
        { s with intakes := s.intakes ++ [row.record] }
  | .updateIntake copy status lastError =>
      s.intakes[copy]?.map fun intake =>
        { s with vault :=
            ((updateIntake { intake with status, lastError }).run s.vault).final }
  | .loadSource sourceId =>
      (s.vault.sources.get sourceId).map fun source => { s with sources := s.sources ++ [source] }
  | .updateSource copy edit =>
      s.sources[copy]?.map fun source =>
        { s with vault := ((updateSource (edit.edit source)).run s.vault).final }

abbrev History := List (Lib.Taken VaultSystem ServiceStep)

/-! ## Lost work -/

def HasJob (v : Vault) (intakeId : String) : Prop := ∃ j ∈ v.jobs.rows, j.intakeId = intakeId

def Present (v : Vault) (intakeId : String) : Prop :=
  ∃ row ∈ v.intakes.rows, row.record.intakeId = intakeId

/-- The newest version of the record is not the one of the intake. -/
def SupersededIn (v : Vault) (intake : Intake) : Prop :=
  ∃ w, (recorded v intake.sourceId).getLast? = some w ∧ w.id ≠ intake.versionId

/-- The version of an intake is in the record, and the intake was never superseded, never
cancelled and never had a job. -/
structure Lost (history : History) (v : Vault) (intake : Intake) : Prop where
  listed : ∃ w ∈ recorded v intake.sourceId, w.id = intake.versionId
  latest : ∀ x ∈ history, Present x.after.vault intake.intakeId →
    ¬ SupersededIn x.after.vault intake
  uncancelled : ∀ x ∈ history, ∀ sourceId reason now, x.action = .cancel sourceId reason now →
    ∀ row ∈ x.after.vault.intakes.rows, row.record.intakeId = intake.intakeId →
      row.sourceId ≠ sourceId
  neverHad : ∀ x ∈ history, ¬ HasJob x.after.vault intake.intakeId

/-- Nothing of this id is in the system. -/
def Absent (s : VaultSystem) (intakeId : String) : Prop :=
  ¬ Present s.vault intakeId ∧ ¬ HasJob s.vault intakeId ∧
    ∀ copy ∈ s.intakes, copy.intakeId ≠ intakeId

/-- A capture that takes no job from an intake that recovery would take up. -/
structure SoundCapture (history : History) (s : VaultSystem) (call : EnqueueCall)
    (crash : Option Nat) : Prop where
  newIntake : Absent s (callIntake call.request call.fresh) ∧
    ∀ x ∈ history, Absent x.after (callIntake call.request call.fresh)
  newSource : call.request.sourceId = none → s.vault.sources.get call.fresh.sourceId = none
  newJob : ∀ j ∈ s.vault.jobs.rows, j.jobId ≠ call.jobId
  /-- An intake with a job keeps one. -/
  keepsJobs : ∀ row ∈ s.vault.intakes.rows, recoverable row.record.status = true →
    HasJob s.vault row.record.intakeId → ∃ j ∈ s.vault.jobs.rows,
      j.intakeId = row.record.intakeId ∧
        ¬ Deletes s.vault call.request (requestedSource call.request call.fresh)
          (callVersion s.vault call.request call.fresh) j
  /-- No intake of another version waits for its job. -/
  waiting : ∀ row ∈ s.vault.intakes.rows, recoverable row.record.status = true →
    ¬ HasJob s.vault row.record.intakeId →
      row.record.sourceId = requestedSource call.request call.fresh →
        row.record.versionId = callVersion s.vault call.request call.fresh
  /-- A video, which has no version, gets its job. -/
  video : call.request.kind = "youtube" → namesVersion call.request = false ∧ crash = none

def Sound (history : History) (s : VaultSystem) : ServiceStep → Prop
  | .enqueue call crash =>
      getByIdempotency s.vault.jobs call.idempotencyKey = none →
        SoundCapture history s call crash
  | .updateIntake copy status _ =>
      ∀ intake, s.intakes[copy]? = some intake → recoverable status = true →
        HasJob s.vault intake.intakeId
  | .updateSource copy _ =>
      ∀ source current, s.sources[copy]? = some source →
        s.vault.sources.get source.id = some current →
          source.versions.map Version.id = current.versions.map Version.id
  | _ => True

/-! ## The invariant -/

def known (s : VaultSystem) : List Intake :=
  s.vault.intakes.rows.map (fun row => row.record) ++ s.intakes

/-- The newest version of the record is the one of the intake. -/
def Newest (v : Vault) (intake : Intake) : Prop :=
  (recorded v intake.sourceId).getLast?.map Version.id = some intake.versionId

/-- What names an intake. -/
def SameIds (i i' : Intake) : Prop :=
  i.intakeId = i'.intakeId ∧ i.sourceId = i'.sourceId ∧ i.versionId = i'.versionId

structure RecoveryInv (history : History) (s : VaultSystem) : Prop where
  lost : ∀ row ∈ s.vault.intakes.rows, recoverable row.record.status = true →
    ¬ HasJob s.vault row.record.intakeId →
      Lost history s.vault row.record ∧ Newest s.vault row.record
  column : ∀ row ∈ s.vault.intakes.rows, row.sourceId = row.record.sourceId
  jobs : ∀ j ∈ s.vault.jobs.rows, ∀ i ∈ known s, i.intakeId = j.intakeId → i.sourceId = j.sourceId
  ids : ∀ i ∈ known s, ∀ i' ∈ known s, i.intakeId = i'.intakeId → SameIds i i'

variable {py : Python} {history : History} {s t : VaultSystem} {a : ServiceStep}
  {i i' : Intake}

theorem Newest.congr {v : Vault} (h : Newest v i) (hids : SameIds i i') : Newest v i' := by
  unfold Newest at h ⊢
  rw [← hids.2.1, ← hids.2.2]
  exact h

theorem Newest.listed {v : Vault} (h : Newest v i) :
    ∃ w ∈ recorded v i.sourceId, w.id = i.versionId := by
  obtain ⟨w, hlast, hid⟩ := Option.map_eq_some_iff.mp h
  exact ⟨w, List.mem_of_getLast? hlast, hid⟩

theorem Newest.not_superseded {v : Vault} (h : Newest v i) : ¬ SupersededIn v i := by
  rintro ⟨w, hlast, hne⟩
  unfold Newest at h
  rw [hlast] at h
  exact hne (Option.some.inj h)

theorem Newest.of_recorded {v w : Vault} (h : Newest v i)
    (hids : (recorded w i.sourceId).map Version.id = (recorded v i.sourceId).map Version.id) :
    Newest w i := by
  unfold Newest at h ⊢
  rw [← List.getLast?_map] at h ⊢
  rw [hids]
  exact h

/-- The history goes on, and the intake is still lost work. -/
theorem Lost.step {v : Vault} (h : Lost history v i) (hids : SameIds i i')
    (hnewest : Newest t.vault i') (hjobless : ¬ HasJob t.vault i'.intakeId)
    (hcancel : ∀ sourceId reason now, a = .cancel sourceId reason now →
      ∀ row ∈ t.vault.intakes.rows, row.record.intakeId = i'.intakeId →
        row.sourceId ≠ sourceId) :
    Lost (history ++ [⟨s, a, t⟩]) t.vault i' := by
  obtain ⟨hid, hsource, hversion⟩ := hids
  have hlatest : ∀ x ∈ history, Present x.after.vault i'.intakeId →
      ¬ SupersededIn x.after.vault i' := by
    intro x hx hpresent hsuperseded
    unfold SupersededIn at hsuperseded
    rw [← hsource, ← hversion] at hsuperseded
    exact h.latest x hx (hid ▸ hpresent) hsuperseded
  refine ⟨hnewest.listed, fun x hx hpresent => ?_, fun x hx sourceId reason now ha => ?_,
    fun x hx => ?_⟩
  · rcases List.mem_append.mp hx with hx | hx
    · exact hlatest x hx hpresent
    · obtain rfl := List.mem_singleton.mp hx
      exact hnewest.not_superseded
  · rcases List.mem_append.mp hx with hx | hx
    · rw [← hid]
      exact h.uncancelled x hx sourceId reason now ha
    · obtain rfl := List.mem_singleton.mp hx
      exact hcancel sourceId reason now ha
  · rcases List.mem_append.mp hx with hx | hx
    · exact hid ▸ h.neverHad x hx
    · obtain rfl := List.mem_singleton.mp hx
      exact hjobless

/-! ## Steps that add no intake -/

/-- No intake is taken up again, no record of an intake that waits is changed, and no intake that
waits loses its job. -/
structure Calm (s t : VaultSystem) : Prop where
  rows : ∀ row ∈ t.vault.intakes.rows, recoverable row.record.status = true →
    ¬ HasJob t.vault row.record.intakeId →
      ∃ old ∈ s.vault.intakes.rows, SameIds old.record row.record ∧
        recoverable old.record.status = true
  column : ∀ row ∈ t.vault.intakes.rows, row.sourceId = row.record.sourceId
  known : ∀ i ∈ known t, ∃ i' ∈ known s, SameIds i' i
  jobs : ∀ row ∈ t.vault.intakes.rows, recoverable row.record.status = true →
    HasJob s.vault row.record.intakeId → HasJob t.vault row.record.intakeId
  records : ∀ row ∈ s.vault.intakes.rows, Newest s.vault row.record →
    Present t.vault row.record.intakeId → Newest t.vault row.record
  fromJobs : ∀ j ∈ t.vault.jobs.rows, (∃ j' ∈ s.vault.jobs.rows,
    j'.intakeId = j.intakeId ∧ j'.sourceId = j.sourceId) ∨
      ∃ i ∈ Ingestion.known s, i.intakeId = j.intakeId ∧ i.sourceId = j.sourceId

theorem known_row {row : IntakeRow} (hrow : row ∈ s.vault.intakes.rows) : row.record ∈ known s :=
  List.mem_append_left _ (List.mem_map_of_mem hrow)

theorem known_copy {copy : Intake} (hcopy : copy ∈ s.intakes) : copy ∈ known s :=
  List.mem_append_right _ hcopy

theorem mem_known : i ∈ known s ↔
    (∃ row ∈ s.vault.intakes.rows, row.record = i) ∨ i ∈ s.intakes := by
  unfold known
  rw [List.mem_append, List.mem_map]

theorem RecoveryInv.calm (h : RecoveryInv history s) (hcalm : Calm s t)
    (hcancel : ∀ sourceId reason now, a = .cancel sourceId reason now →
      ∀ row ∈ t.vault.intakes.rows, recoverable row.record.status = true →
        row.sourceId ≠ sourceId) :
    RecoveryInv (history ++ [⟨s, a, t⟩]) t := by
  have hids : ∀ i ∈ known t, ∀ i' ∈ known t, i.intakeId = i'.intakeId → SameIds i i' := by
    intro i hi i' hi' heq
    obtain ⟨k, hk, hki⟩ := hcalm.known i hi
    obtain ⟨k', hk', hki'⟩ := hcalm.known i' hi'
    have hkk := h.ids k hk k' hk' (hki.1.trans (heq.trans hki'.1.symm))
    exact ⟨heq, hki.2.1.symm.trans (hkk.2.1.trans hki'.2.1),
      hki.2.2.symm.trans (hkk.2.2.trans hki'.2.2)⟩
  refine ⟨fun row hrow hstatus hjobless => ?_, hcalm.column, fun j hj i hi heq => ?_, hids⟩
  · obtain ⟨old, hold, hsame, hwas⟩ := hcalm.rows row hrow hstatus hjobless
    have hno : ¬ HasJob s.vault old.record.intakeId := by
      rw [hsame.1]
      exact fun hjob => hjobless (hcalm.jobs row hrow hstatus hjob)
    obtain ⟨hlost, hnewest⟩ := h.lost old hold hwas hno
    have hnew : Newest t.vault row.record :=
      (hcalm.records old hold hnewest ⟨row, hrow, hsame.1.symm⟩).congr hsame
    refine ⟨hlost.step hsame hnew hjobless fun sourceId reason now ha row' hrow' heq => ?_, hnew⟩
    obtain rfl := Table.eq_of_key_eq hrow' hrow heq
    exact hcancel sourceId reason now ha row' hrow hstatus
  · obtain ⟨k, hk, hki⟩ := hcalm.known i hi
    rcases hcalm.fromJobs j hj with ⟨j', hj', hid, hsource⟩ | ⟨k', hk', hid, hsource⟩
    · rw [← hsource, ← hki.2.1]
      exact h.jobs j' hj' k hk (hki.1.trans (heq.trans hid.symm))
    · rw [← hsource, ← hki.2.1]
      exact (h.ids k hk k' hk' (hki.1.trans (heq.trans hid.symm))).2.1

/-- What no statement on the jobs changes. -/
def SameIntake (j j' : Job) : Prop := j'.intakeId = j.intakeId ∧ j'.sourceId = j.sourceId

theorem evolves_update {jobs : JobTable} {p : Job → Bool} {f : Job → Job}
    (hf : ∀ j, (f j).jobId = j.jobId) (hsame : ∀ j, SameIntake j (f j)) :
    Table.Evolves SameIntake jobs (jobs.update p f hf) :=
  Table.Evolves.update hf (fun j _ _ => hsame j) fun _ _ _ => ⟨rfl, rfl⟩

theorem evolves_refl (jobs : JobTable) : Table.Evolves SameIntake jobs jobs :=
  Table.Evolves.refl fun _ _ => ⟨rfl, rfl⟩

theorem evolves_reclaim (jobs : JobTable) (now : Timestamp) :
    Table.Evolves SameIntake jobs (reclaimLocked jobs now) :=
  evolves_update (fun j => j.reclaimed_jobId now) fun _ => ⟨rfl, rfl⟩

theorem JobAction.evolves (jobs : JobTable) (now : Timestamp) (action : JobAction) :
    Table.Evolves SameIntake jobs (action.apply jobs now) := by
  cases action with
  | claim owner pick =>
      change Table.Evolves SameIntake jobs (Ingestion.claim jobs owner now pick).2
      unfold Ingestion.claim
      dsimp only
      split
      · exact evolves_reclaim jobs now
      · exact (evolves_reclaim jobs now).trans
          (evolves_update (fun j => j.claimedBy_jobId owner _ now) fun _ => ⟨rfl, rfl⟩)
          fun _ _ _ h h' => ⟨h'.1.trans h.1, h'.2.trans h.2⟩
  | heartbeat jobId owner generation =>
      exact evolves_update (fun j => j.extended_jobId now) fun _ => ⟨rfl, rfl⟩
  | finish job completed result =>
      change Table.Evolves SameIntake jobs (Ingestion.finish jobs job completed result now).2
      unfold Ingestion.finish
      split
      · exact evolves_refl jobs
      · exact evolves_update (fun j => j.finished_jobId completed result now) fun _ => ⟨rfl, rfl⟩
  | fail job code summary retryable =>
      exact evolves_update (fun j => j.failedAs_jobId job code summary retryable now)
        fun _ => ⟨rfl, rfl⟩
  | blockForPassword job code summary =>
      exact evolves_update (fun j => j.blocked_jobId code summary now) fun _ => ⟨rfl, rfl⟩
  | requeue jobId passwordProfile =>
      exact evolves_update (fun j => j.requeued_jobId passwordProfile now) fun _ => ⟨rfl, rfl⟩

theorem HasJob.evolves {v w : Vault} {intakeId : String} (h : HasJob v intakeId)
    (he : Table.Evolves SameIntake v.jobs w.jobs) : HasJob w intakeId := by
  obtain ⟨j, hj, hid⟩ := h
  obtain ⟨j', hj', hsame⟩ := he.get (Table.get_of_mem hj)
  exact ⟨j', Table.mem_of_get hj', hsame.1.trans hid⟩

theorem from_evolves {v w : Vault} (he : Table.Evolves SameIntake v.jobs w.jobs) {j : Job}
    (hj : j ∈ w.jobs.rows) :
    ∃ j' ∈ v.jobs.rows, j'.intakeId = j.intakeId ∧ j'.sourceId = j.sourceId := by
  obtain ⟨j', hj', -, hsame⟩ := he.of_mem hj
  exact ⟨j', hj', hsame.1.symm, hsame.2.symm⟩

/-- A step that touches jobs, blobs and search rows only. -/
theorem RecoveryInv.calm_jobs (h : RecoveryInv history s) (hs : t.vault.sources = s.vault.sources)
    (hi : t.vault.intakes = s.vault.intakes) (hc : t.intakes = s.intakes)
    (he : Table.Evolves SameIntake s.vault.jobs t.vault.jobs) : Calm s t where
  rows := fun row hrow hstatus _ => ⟨row, hi ▸ hrow, ⟨rfl, rfl, rfl⟩, hstatus⟩
  column := fun row hrow => h.column row (hi ▸ hrow)
  known := fun i hk => by
    unfold Ingestion.known at hk
    rw [hi, hc] at hk
    exact ⟨i, hk, rfl, rfl, rfl⟩
  jobs := fun _ _ _ hjob => hjob.evolves he
  records := fun _ _ hnewest _ => hnewest.of_recorded (by rw [recorded_of_sources hs])
  fromJobs := fun j hj => Or.inl (from_evolves he hj)

/-- A record is read. -/
theorem RecoveryInv.calm_load (h : RecoveryInv history s) {row : IntakeRow}
    (hrow : row ∈ s.vault.intakes.rows) :
    Calm s { s with intakes := s.intakes ++ [row.record] } where
  rows := fun row hrow hstatus _ => ⟨row, hrow, ⟨rfl, rfl, rfl⟩, hstatus⟩
  column := h.column
  known := fun i hi => by
    refine ⟨i, ?_, rfl, rfl, rfl⟩
    rcases mem_known.mp hi with ⟨row, hrow, rfl⟩ | hi
    · exact known_row hrow
    · rcases List.mem_append.mp hi with hi | hi
      · exact known_copy hi
      · obtain rfl := List.mem_singleton.mp hi
        exact known_row hrow
  jobs := fun _ _ _ hjob => hjob
  records := fun _ _ hnewest _ => hnewest
  fromJobs := fun j hj => Or.inl ⟨j, hj, rfl, rfl⟩

/-- A copy of an intake is written back. -/
theorem RecoveryInv.calm_updateIntake (h : RecoveryInv history s) {copy intake : Intake}
    (hcopy : copy ∈ s.intakes) (hids : SameIds copy intake)
    (hjob : recoverable intake.status = true → HasJob s.vault copy.intakeId) :
    Calm s { s with vault := ((updateIntake intake).run s.vault).final } := by
  unfold updateIntake
  split
  · have hrows : ∀ row ∈ (saveIntake intake s.vault).intakes.rows,
        row ∈ s.vault.intakes.rows ∨ row.record = intake := by
      intro row hrow
      rcases Table.mem_upsert.mp hrow with rfl | ⟨hrow, -⟩
      · exact Or.inr rfl
      · exact Or.inl hrow
    refine ⟨fun row hrow hstatus hjobless => ?_, fun row hrow => ?_, fun i hi => ?_,
      fun _ _ _ hjob => hjob, fun _ _ hnewest _ => hnewest, fun j hj => Or.inl ⟨j, hj, rfl, rfl⟩⟩
    · rcases hrows row hrow with hrow | hrow
      · exact ⟨row, hrow, ⟨rfl, rfl, rfl⟩, hstatus⟩
      · rw [hrow] at hstatus hjobless
        exact absurd (hids.1 ▸ hjob hstatus) hjobless
    · rcases Table.mem_upsert.mp hrow with rfl | ⟨hrow, -⟩
      · -- The column is that of the row that was there, whose ids are those of the copy.
        change ((s.vault.intakes.get intake.intakeId).map fun row => row.sourceId).getD
          intake.sourceId = intake.sourceId
        cases hget : s.vault.intakes.get intake.intakeId with
        | none => rfl
        | some row =>
            have hrow := Table.mem_of_get hget
            have hkey : row.record.intakeId = intake.intakeId :=
              (Table.get_eq_some_iff.mp hget).2
            have hsame := h.ids _ (known_row hrow) copy (known_copy hcopy)
              (hkey.trans hids.1.symm)
            exact (h.column row hrow).trans (hsame.2.1.trans hids.2.1)
      · exact h.column row hrow
    · rcases mem_known.mp hi with ⟨row, hrow, rfl⟩ | hi
      · rcases hrows row hrow with hrow | hrow
        · exact ⟨row.record, known_row hrow, rfl, rfl, rfl⟩
        · rw [hrow]
          exact ⟨copy, known_copy hcopy, hids⟩
      · exact ⟨i, known_copy hi, rfl, rfl, rfl⟩
  · exact h.calm_jobs rfl rfl rfl (evolves_refl _)

/-- A copy of a record is written back with the versions that the record has. -/
theorem RecoveryInv.calm_updateSource (h : RecoveryInv history s) {source : Source}
    (hversions : ∀ current, s.vault.sources.get source.id = some current →
      source.versions.map Version.id = current.versions.map Version.id) :
    Calm s { s with vault := ((updateSource source).run s.vault).final } := by
  unfold updateSource
  split
  · refine ⟨fun row hrow hstatus _ => ⟨row, hrow, ⟨rfl, rfl, rfl⟩, hstatus⟩, h.column,
      fun i hi => ⟨i, hi, rfl, rfl, rfl⟩, fun _ _ _ hjob => hjob, fun row hrow hnewest _ => ?_,
      fun j hj => Or.inl ⟨j, hj, rfl, rfl⟩⟩
    by_cases hid : row.record.sourceId = source.id
    · cases hget : s.vault.sources.get source.id with
      | none =>
          unfold Newest at hnewest
          rw [hid] at hnewest
          unfold recorded at hnewest
          rw [hget] at hnewest
          cases hnewest
      | some current =>
          refine hnewest.of_recorded ?_
          rw [hid]
          change (recorded (saveSource source s.vault) source.id).map Version.id = _
          rw [recorded_saveSource, hversions current hget]
          unfold recorded
          rw [hget]
          rfl
    · refine hnewest.of_recorded ?_
      change (recorded (saveSource source s.vault) row.record.sourceId).map Version.id = _
      rw [recorded_saveSource_of_ne (Ne.symm hid)]
  · exact h.calm_jobs rfl rfl rfl (evolves_refl _)

theorem not_recoverable_cancelled : recoverable "cancelled" = false := by decide

theorem RecoveryInv.calm_cancel (h : RecoveryInv history s) {sourceId reason : String}
    {now : Timestamp} {v : Vault} (hv : cancelProcessing sourceId reason now s.vault = some v) :
    Calm s { s with vault := v } ∧ ∀ row ∈ v.intakes.rows,
      recoverable row.record.status = true → row.sourceId ≠ sourceId := by
  obtain ⟨source, hget, rfl⟩ := Option.map_eq_some_iff.mp hv
  have hjobs : Table.Evolves SameIntake s.vault.jobs
      (cancelJobs s.vault.jobs sourceId reason now) := evolves_update _ fun _ => ⟨rfl, rfl⟩
  have hrows : ∀ row ∈ (s.vault.intakes.update (fun row => row.sourceId = sourceId)
      (fun row => row.cancelled reason) fun row => row.cancelled_intakeId reason).rows,
      ∃ old ∈ s.vault.intakes.rows, SameIds old.record row.record ∧
        row.sourceId = old.sourceId ∧ (recoverable row.record.status = true →
          recoverable old.record.status = true ∧ row.sourceId ≠ sourceId) := by
    intro row hrow
    obtain ⟨old, hold, rfl⟩ := Table.mem_update.mp hrow
    refine ⟨old, hold, ?_⟩
    by_cases hcolumn : old.sourceId = sourceId
    · simp only [hcolumn, decide_true, if_true]
      refine ⟨⟨rfl, rfl, rfl⟩, hcolumn, fun hstatus => ?_⟩
      have hcancelled : recoverable "cancelled" = true := hstatus
      rw [not_recoverable_cancelled] at hcancelled
      cases hcancelled
    · simp only [hcolumn, decide_false, Bool.false_eq_true, if_false]
      exact ⟨⟨rfl, rfl, rfl⟩, trivial, fun hstatus => ⟨hstatus, hcolumn⟩⟩
  refine ⟨⟨fun row hrow hstatus _ => ?_, fun row hrow => ?_, fun i hi => ?_,
    fun _ _ _ hjob => hjob.evolves hjobs, fun row hrow hnewest _ => ?_,
    fun j hj => Or.inl (@from_evolves s.vault _ hjobs j hj)⟩, fun row hrow hstatus => ?_⟩
  · obtain ⟨old, hold, hsame, -, hwas⟩ := hrows row hrow
    exact ⟨old, hold, hsame, (hwas hstatus).1⟩
  · obtain ⟨old, hold, hsame, hcolumn, -⟩ := hrows row hrow
    rw [hcolumn, h.column old hold, hsame.2.1]
  · rcases mem_known.mp hi with ⟨row, hrow, rfl⟩ | hi
    · obtain ⟨old, hold, hsame, -⟩ := hrows row hrow
      exact ⟨old.record, known_row hold, hsame⟩
    · exact ⟨i, known_copy hi, rfl, rfl, rfl⟩
  · refine hnewest.of_recorded ?_
    have hid : (source.cancelled reason).id = sourceId := (Table.get_eq_some_iff.mp hget).2
    change (recorded (saveSource (source.cancelled reason) s.vault) _).map Version.id = _
    by_cases hrow : row.record.sourceId = sourceId
    · rw [hrow, ← hid, recorded_saveSource, hid]
      unfold recorded
      rw [hget]
      rfl
    · rw [recorded_saveSource_of_ne (by rw [hid]; exact Ne.symm hrow)]
  · obtain ⟨old, hold, -, -, hwas⟩ := hrows row hrow
    exact (hwas hstatus).2

/-- The records of a source are gone, or nothing is. -/
theorem deleteSource_tables {sourceId : String} {before : Vault} :
    Spec (· = before) (deleteSource sourceId)
      (SameTables (deleteSourceCascade sourceId before))
      (fun _ v => SameTables (deleteSourceCascade sourceId before) v ∨ SameTables before v) := by
  have hblobs : ∀ keys, Preserves (SameTables (deleteSourceCascade sourceId before))
      (removeBlobs keys) := by
    intro keys
    induction keys with
    | nil => exact Preserves.pure ()
    | cons key rest ih => exact Preserves.bind (Preserves.write fun v hv => hv) fun _ => ih
  refine Spec.ite (fun _ => ?_) fun _ => Spec.fail ?_
  · have hcascade : ∀ v, v = before →
        SameTables (deleteSourceCascade sourceId before) (deleteSourceCascade sourceId v) := by
      rintro v rfl
      exact ⟨rfl, rfl, rfl⟩
    refine Spec.bind (Q := fun _ => SameTables (deleteSourceCascade sourceId before))
      (Spec.write hcascade hcascade) (fun _ => ?_) fun _ _ hv => Or.inl hv
    exact Spec.get_bind fun v hv => (hblobs _).conseq (fun w hw => hw ▸ hv) (fun _ hw => hw)
      fun _ _ hw => Or.inl hw
  · rintro v rfl
    exact Or.inr ⟨rfl, rfl, rfl⟩

theorem recorded_deleteSourceCascade {v : Vault} {sourceId id : String} (hne : id ≠ sourceId) :
    recorded (deleteSourceCascade sourceId v) id = recorded v id := by
  unfold recorded deleteSourceCascade
  rw [Table.get_delete]
  cases hget : v.sources.get id with
  | none => rfl
  | some source =>
      have hid : source.id = id := Table.key_of_get hget
      rw [Option.filter_some_pos (by simpa [hid] using hne)]

theorem RecoveryInv.calm_delete (h : RecoveryInv history s) {sourceId : String} {v : Vault}
    (hv : SameTables (deleteSourceCascade sourceId s.vault) v) :
    Calm s { s with vault := v } := by
  obtain ⟨hsources, hintakes, hjobs⟩ := hv
  have hrows : ∀ row ∈ v.intakes.rows, row ∈ s.vault.intakes.rows ∧ row.sourceId ≠ sourceId := by
    intro row hrow
    rw [hintakes] at hrow
    obtain ⟨hrow, hcolumn⟩ := Table.mem_delete.mp hrow
    exact ⟨hrow, by simpa using hcolumn⟩
  refine ⟨fun row hrow hstatus _ => ⟨row, (hrows row hrow).1, ⟨rfl, rfl, rfl⟩, hstatus⟩,
    fun row hrow => h.column row (hrows row hrow).1, fun i hi => ?_,
    fun row hrow _ hjob => ?_, fun row hrow hnewest hpresent => ?_, fun j hj => ?_⟩
  · refine ⟨i, ?_, rfl, rfl, rfl⟩
    rcases mem_known.mp hi with ⟨row, hrow, rfl⟩ | hi
    · exact known_row (hrows row hrow).1
    · exact known_copy hi
  · obtain ⟨j, hj, hid⟩ := hjob
    obtain ⟨hrow, hcolumn⟩ := hrows row hrow
    have hsource := h.jobs j hj row.record (known_row hrow) hid.symm
    refine ⟨j, ?_, hid⟩
    rw [hjobs]
    refine Table.mem_delete.mpr ⟨hj, ?_⟩
    rw [decide_eq_false_iff_not, ← hsource, ← h.column row hrow]
    exact hcolumn
  · obtain ⟨row', hrow', hid⟩ := hpresent
    obtain ⟨hrow', hcolumn⟩ := hrows row' hrow'
    obtain rfl := Table.eq_of_key_eq hrow' hrow hid
    refine hnewest.of_recorded ?_
    have hne : row'.record.sourceId ≠ sourceId := h.column row' hrow ▸ hcolumn
    rw [recorded_of_sources hsources, recorded_deleteSourceCascade hne]
  · have hj : j ∈ v.jobs.rows := hj
    rw [hjobs] at hj
    exact Or.inl ⟨j, (Table.mem_delete.mp hj).1, rfl, rfl⟩

/-! ## Recovery -/

theorem getByIntake_eq_none {jobs : JobTable} {intakeId : String}
    (h : getByIntake jobs intakeId = none) : ∀ j ∈ jobs.rows, j.intakeId ≠ intakeId := by
  unfold getByIntake at h
  rw [List.find?_eq_none] at h
  exact fun j hj heq => h j hj (by simpa using heq)

/-- What recovery leaves: jobs for intakes that waited for one. -/
structure Recovering (before v : Vault) : Prop where
  sources : v.sources = before.sources
  rows : ∀ row ∈ v.intakes.rows, ∃ old ∈ before.intakes.rows, SameIds old.record row.record ∧
    row.sourceId = old.sourceId ∧
      (recoverable row.record.status = true → recoverable old.record.status = true)
  jobs : ∀ j ∈ v.jobs.rows, (∃ j' ∈ before.jobs.rows, j'.jobId = j.jobId ∧ SameIntake j j') ∨
    ∃ row ∈ before.intakes.rows, recoverable row.record.status = true ∧
      ¬ HasJob before row.record.intakeId ∧ row.record.intakeId = j.intakeId ∧
        row.record.sourceId = j.sourceId
  kept : ∀ intakeId, HasJob before intakeId → HasJob v intakeId

variable {before v w : Vault}

theorem Recovering.reclaim (now : Timestamp) :
    Recovering before { before with jobs := reclaimLocked before.jobs now } where
  sources := rfl
  rows := fun row hrow => ⟨row, hrow, ⟨rfl, rfl, rfl⟩, rfl, id⟩
  jobs := fun j hj => by
    obtain ⟨j', hj', hid, hsame⟩ := (evolves_reclaim before.jobs now).of_mem hj
    exact Or.inl ⟨j', hj', hid.symm, hsame.1.symm, hsame.2.symm⟩
  kept := fun _ hjob => hjob.evolves (evolves_reclaim before.jobs now)

theorem Recovering.submit (h : Recovering before v) {intake : Intake} {row : IntakeRow}
    (hrow : row ∈ before.intakes.rows) (hrecord : row.record = intake)
    (hstatus : recoverable intake.status = true)
    (hjobless : ∀ j ∈ v.jobs.rows, j.intakeId ≠ intake.intakeId) {key jobId : String}
    {now : Timestamp} {job : Job} {jobs : JobTable}
    (hsubmit : Ingestion.submit v.jobs (submission key intake none) jobId now = .ok (job, jobs)) :
    Recovering before { v with jobs } := by
  rcases submit_ok hsubmit with ⟨rfl, -⟩ | ⟨rfl, hinsert⟩
  · exact h
  · have hkept : ∀ intakeId, HasJob v intakeId → HasJob { v with jobs } intakeId := by
      rintro intakeId ⟨j, hj, hid⟩
      exact ⟨j, (Table.mem_insert hinsert).mpr (Or.inl hj), hid⟩
    refine ⟨h.sources, h.rows, fun j hj => ?_, fun intakeId hjob => hkept _ (h.kept _ hjob)⟩
    rcases (Table.mem_insert hinsert).mp hj with hj | rfl
    · exact h.jobs j hj
    · refine Or.inr ⟨row, hrow, hrecord ▸ hstatus, fun hjob => ?_, by rw [hrecord]; rfl,
        by rw [hrecord]; rfl⟩
      obtain ⟨j, hj, hid⟩ := h.kept _ hjob
      exact hjobless j hj (hid.trans (by rw [hrecord]))

theorem Recovering.saveIntake (h : Recovering before v) {intake saved : Intake}
    {row : IntakeRow} (hrow : row ∈ before.intakes.rows) (hrecord : row.record = intake)
    (hcolumn : row.sourceId = intake.sourceId) (hids : SameIds intake saved)
    (hstatus : recoverable intake.status = true) : Recovering before (saveIntake saved v) where
  sources := h.sources
  rows := by
    intro r hr
    rcases Table.mem_upsert.mp hr with rfl | ⟨hr, -⟩
    · refine ⟨row, hrow, hrecord ▸ hids, ?_, fun _ => hrecord ▸ hstatus⟩
      change ((v.intakes.get saved.intakeId).map fun row => row.sourceId).getD saved.sourceId =
        row.sourceId
      cases hget : v.intakes.get saved.intakeId with
      | none => exact hids.2.1.symm.trans hcolumn.symm
      | some found =>
          obtain ⟨old, hold, hsame, hcol, -⟩ := h.rows found (Table.mem_of_get hget)
          have hkey : found.record.intakeId = saved.intakeId := (Table.get_eq_some_iff.mp hget).2
          have heq : old = row := Table.eq_of_key_eq hold hrow (by
            rw [hsame.1, hkey, ← hids.1, hrecord])
          rw [← heq, ← hcol]
          rfl
    · exact h.rows r hr
  jobs := h.jobs
  kept := h.kept

theorem recoverIntakes_spec {now : Timestamp} {newId : String → String} {intakes : List Intake}
    (hintakes : ∀ intake ∈ intakes, ∃ row ∈ before.intakes.rows, row.record = intake ∧
      row.sourceId = intake.sourceId) :
    Preserves (Recovering before) (recoverIntakes now newId intakes) := by
  induction intakes with
  | nil => exact Preserves.pure []
  | cons intake rest ih =>
      have ih := ih fun i hi => hintakes i (List.mem_cons_of_mem _ hi)
      obtain ⟨row, hrow, hrecord, hcolumn⟩ := hintakes intake List.mem_cons_self
      unfold recoverIntakes
      refine Preserves.ite (fun hstatus => Preserves.get_bind fun v hv => ?_) fun _ => ih
      cases hjob : getByIntake v.jobs intake.intakeId with
      | some job => exact ih.conseq (fun w hw => hw ▸ hv) (fun _ h => h) fun _ _ h => h
      | none =>
          have hjobless := getByIntake_eq_none hjob
          have hsubmit : Spec (· = v) (submitJob (submission ("recovery:" ++ intake.intakeId)
              intake none) (newId intake.intakeId) now) (Recovering before)
              (fun _ w => Recovering before w) := by
            refine Spec.get_bind ?_
            rintro v rfl
            cases hsubmit : submit v.jobs (submission ("recovery:" ++ intake.intakeId) intake none)
                (newId intake.intakeId) now with
            | error e =>
                refine Spec.fail ?_
                rintro v rfl
                exact hv
            | ok result =>
                have hnew := hv.submit hrow hrecord hstatus hjobless hsubmit
                refine Spec.bind (Q := fun _ w => Recovering before w) (Spec.write ?_ ?_)
                  (fun _ => Spec.pure fun _ h => h) fun _ _ h => h
                · rintro v rfl
                  exact hnew
                · rintro v rfl
                  exact hnew
          refine Spec.bind hsubmit (fun job => ?_) fun _ _ h => h
          refine Preserves.bind (Preserves.ite (fun _ => Preserves.write fun w hw => ?_)
            fun _ => Preserves.fail _) fun _ => Preserves.bind ih fun _ => Preserves.pure _
          exact hw.saveIntake hrow hrecord hcolumn ⟨rfl, rfl, rfl⟩ hstatus

theorem recoverVault_spec {now : Timestamp} {newId : String → String}
    (hcolumn : ∀ row ∈ before.intakes.rows, row.sourceId = row.record.sourceId) :
    Spec (· = before) (recoverVault now newId) (Recovering before)
      (fun _ v => Recovering before v) := by
  have hreclaim : ∀ v, v = before →
      Recovering before { v with jobs := reclaimLocked v.jobs now } ∧
        ({ v with jobs := reclaimLocked v.jobs now } : Vault).intakes = before.intakes := by
    rintro v rfl
    exact ⟨Recovering.reclaim now, rfl⟩
  refine Spec.bind (Q := fun _ v => Recovering before v ∧ v.intakes = before.intakes)
    (Spec.write (fun v hv => (hreclaim v hv).1) hreclaim) (fun _ => ?_) fun _ _ h => h.1
  refine Spec.get_bind fun v hv => ?_
  refine (recoverIntakes_spec fun intake hintake => ?_).conseq (fun w hw => hw ▸ hv.1)
    (fun _ h => h) fun _ _ h => h
  unfold listIntakes at hintake
  rw [List.mem_insertionSort, hv.2] at hintake
  obtain ⟨row, hrow, rfl⟩ := List.mem_map.mp hintake
  exact ⟨row, hrow, rfl, hcolumn row hrow⟩

theorem RecoveryInv.calm_recover (h : RecoveryInv history s) (hv : Recovering s.vault v) :
    Calm s { s with vault := v } := by
  refine ⟨fun row hrow hstatus _ => ?_, fun row hrow => ?_, fun i hi => ?_,
    fun row hrow _ hjob => hv.kept _ hjob, fun row hrow hnewest _ => ?_, fun j hj => ?_⟩
  · obtain ⟨old, hold, hsame, -, hwas⟩ := hv.rows row hrow
    exact ⟨old, hold, hsame, hwas hstatus⟩
  · obtain ⟨old, hold, hsame, hcolumn, -⟩ := hv.rows row hrow
    rw [hcolumn, h.column old hold, hsame.2.1]
  · rcases mem_known.mp hi with ⟨row, hrow, rfl⟩ | hi
    · obtain ⟨old, hold, hsame, -⟩ := hv.rows row hrow
      exact ⟨old.record, known_row hold, hsame⟩
    · exact ⟨i, known_copy hi, rfl, rfl, rfl⟩
  · exact hnewest.of_recorded (by rw [recorded_of_sources hv.sources])
  · rcases hv.jobs j hj with ⟨j', hj', -, hsame⟩ | ⟨row, hrow, -, -, hid, hsource⟩
    · exact Or.inl ⟨j', hj', hsame.1, hsame.2⟩
    · exact Or.inr ⟨row.record, known_row hrow, hid, hsource⟩

/-! ## Capture -/

section Enqueue

variable {call : EnqueueCall} {crash : Option Nat}

/-- The key of the call has a job. -/
theorem captureAndEnqueue_duplicate {existing : Job}
    (hkey : getByIdempotency v.jobs call.idempotencyKey = some existing)
    (hhalt : (captureAndEnqueue py call).halt v crash = some w) : w = v := by
  have hrun : (captureAndEnqueue py call).run v = ⟨[], v, .ok (duplicateOf existing)⟩ := by
    unfold captureAndEnqueue
    rw [Prog.run_get_bind, hkey]
    rfl
  unfold Prog.halt at hhalt
  rw [hrun] at hhalt
  cases crash with
  | none => exact (Option.some.inj hhalt).symm
  | some n =>
      cases n with
      | zero => exact (Option.some.inj hhalt).symm
      | succ n => cases hhalt

/-- An intake that could be taken up keeps its job. -/
theorem SoundCapture.hasJob (hsound : SoundCapture history s call crash)
    (hkept : ∀ j ∈ s.vault.jobs.rows, ¬ Deletes s.vault call.request
      (requestedSource call.request call.fresh) (callVersion s.vault call.request call.fresh) j →
        j ∈ v.jobs.rows) {row : IntakeRow} (hrow : row ∈ s.vault.intakes.rows)
    (hstatus : recoverable row.record.status = true)
    (hjob : HasJob s.vault row.record.intakeId) : HasJob v row.record.intakeId := by
  obtain ⟨j, hj, hid, hno⟩ := hsound.keepsJobs row hrow hstatus hjob
  exact ⟨j, hkept j hj hno, hid⟩

theorem SoundCapture.calm (hsound : SoundCapture history s call crash)
    (h : RecoveryInv history s) (hv : Superseding s.vault call.request
      (requestedSource call.request call.fresh) (callVersion s.vault call.request call.fresh) v) :
    Calm s { s with vault := v } where
  rows := fun row hrow hstatus _ => ⟨row, hv.intakes ▸ hrow, ⟨rfl, rfl, rfl⟩, hstatus⟩
  column := fun row hrow => h.column row (hv.intakes ▸ hrow)
  known := fun i hi => by
    unfold Ingestion.known at hi
    rw [hv.intakes] at hi
    exact ⟨i, hi, rfl, rfl, rfl⟩
  jobs := fun row hrow hstatus hjob =>
    hsound.hasJob hv.kept (hv.intakes ▸ hrow) hstatus hjob
  records := fun _ _ hnewest _ => hnewest.of_recorded (by rw [recorded_of_sources hv.sources])
  fromJobs := fun j hj => Or.inl ⟨j, hv.fewer j hj, rfl, rfl⟩

/-- The newest version of the new record is the one of the call. -/
theorem newest_of_recording {intake : Intake} {version : Version}
    (hv : Recording s.vault call.request (callIntake call.request call.fresh)
      (requestedSource call.request call.fresh) (callVersion s.vault call.request call.fresh)
      (some version) v)
    (hid : version.id = callVersion s.vault call.request call.fresh)
    (hsource : intake.sourceId = requestedSource call.request call.fresh)
    (hversion : intake.versionId = callVersion s.vault call.request call.fresh) :
    Newest v intake := by
  unfold Newest
  rw [hsource, hv.record, hversion, ← hid]
  simp

/-- An intake that waited goes on waiting. -/
theorem SoundCapture.newest (hsound : SoundCapture history s call crash)
    {version : Option Version}
    (hkind : VersionOf call.request (callVersion s.vault call.request call.fresh) version)
    (hv : Recording s.vault call.request (callIntake call.request call.fresh)
      (requestedSource call.request call.fresh) (callVersion s.vault call.request call.fresh)
      version v) {row : IntakeRow} (hrow : row ∈ s.vault.intakes.rows)
    (hstatus : recoverable row.record.status = true)
    (hjobless : ¬ HasJob s.vault row.record.intakeId) (hnewest : Newest s.vault row.record) :
    Newest v row.record := by
  by_cases hsource : row.record.sourceId = requestedSource call.request call.fresh
  · have hversion := hsound.waiting row hrow hstatus hjobless hsource
    cases version with
    | some w => exact newest_of_recording hv (hkind.1 w rfl) hsource hversion
    | none =>
        -- A video takes a new version id, which the newest version cannot have.
        have hvideo : call.request.kind = "youtube" := by
          by_contra hno
          cases hkind.2 hno
        obtain ⟨w, hw, hid⟩ := hnewest.listed
        rw [hsource] at hw
        exact absurd (hid.trans hversion) (targetVersion_fresh (hsound.video hvideo).1 hw)
  · refine hnewest.of_recorded ?_
    unfold recorded
    rw [hv.others _ hsource]

theorem RecoveryInv.recording (h : RecoveryInv history s)
    (hsound : SoundCapture history s call crash) {version : Option Version}
    (hkind : VersionOf call.request (callVersion s.vault call.request call.fresh) version)
    (hv : Recording s.vault call.request (callIntake call.request call.fresh)
      (requestedSource call.request call.fresh) (callVersion s.vault call.request call.fresh)
      version v) (hsettled : crash = none → Settled s.vault call v) :
    RecoveryInv (history ++ [⟨s, .enqueue call crash, { s with vault := v }⟩])
      { s with vault := v } := by
  obtain ⟨⟨hnotPresent, hnoJob, hnoCopy⟩, hhistory⟩ := hsound.newIntake
  have hknown : ∀ i ∈ known { s with vault := v }, i ∈ known s ∨
      (i.intakeId = callIntake call.request call.fresh ∧
        i.sourceId = requestedSource call.request call.fresh ∧
        i.versionId = callVersion s.vault call.request call.fresh) := by
    intro i hi
    rcases mem_known.mp hi with ⟨row, hrow, rfl⟩ | hi
    · rcases hv.rows row hrow with hrow | ⟨hid, hsource, hversion, -⟩
      · exact Or.inl (known_row hrow)
      · exact Or.inr ⟨hid, hsource, hversion⟩
    · exact Or.inl (known_copy hi)
  have hother : ∀ i ∈ known s, i.intakeId ≠ callIntake call.request call.fresh := by
    intro i hi
    rcases mem_known.mp hi with ⟨row, hrow, rfl⟩ | hi
    · exact fun heq => hnotPresent ⟨row, hrow, heq⟩
    · exact hnoCopy i hi
  refine ⟨fun row hrow hstatus hjobless => ?_, fun row hrow => ?_, fun j hj i hi heq => ?_,
    fun i hi i' hi' heq => ?_⟩
  · rcases hv.rows row hrow with hrow | ⟨hid, hsource, hversion, -⟩
    · have hno : ¬ HasJob s.vault row.record.intakeId :=
        fun hjob => hjobless (hsound.hasJob hv.kept hrow hstatus hjob)
      obtain ⟨hlost, hnewest⟩ := h.lost row hrow hstatus hno
      have hnew := hsound.newest hkind hv hrow hstatus hno hnewest
      exact ⟨hlost.step ⟨rfl, rfl, rfl⟩ hnew hjobless (by rintro _ _ _ ⟨⟩), hnew⟩
    · cases version with
      | some w =>
          have hnew : Newest v row.record :=
            newest_of_recording hv (hkind.1 w rfl) hsource hversion
          refine ⟨⟨hnew.listed, fun x hx hpresent => ?_, fun x hx sourceId reason now ha => ?_,
            fun x hx => ?_⟩, hnew⟩
          · rcases List.mem_append.mp hx with hx | hx
            · exact absurd (hid ▸ hpresent) (hhistory x hx).1
            · obtain rfl := List.mem_singleton.mp hx
              exact hnew.not_superseded
          · rcases List.mem_append.mp hx with hx | hx
            · exact fun row' hrow' heq =>
                absurd ⟨row', hrow', heq.trans hid⟩ (hhistory x hx).1
            · obtain rfl := List.mem_singleton.mp hx
              cases ha
          · rcases List.mem_append.mp hx with hx | hx
            · rw [hid]
              exact (hhistory x hx).2.1
            · obtain rfl := List.mem_singleton.mp hx
              exact hjobless
      | none =>
          have hvideo : call.request.kind = "youtube" := by
            by_contra hno
            cases hkind.2 hno
          rcases hsettled (hsound.video hvideo).2 hsound.newJob with hrows | hjob
          · exact absurd ⟨row, hrows row hrow, hid⟩ hnotPresent
          · exact absurd (hid ▸ hjob) hjobless
  · rcases hv.rows row hrow with hrow | ⟨-, hsource, -, hcolumn⟩
    · exact h.column row hrow
    · exact hcolumn.trans hsource.symm
  · rcases hv.jobs j hj with hj | ⟨hid, hsource⟩
    · rcases hknown i hi with hi | ⟨hiid, -⟩
      · exact h.jobs j hj i hi heq
      · exact absurd ⟨j, hj, heq.symm.trans hiid⟩ hnoJob
    · rcases hknown i hi with hi | ⟨-, hisource, -⟩
      · exact absurd (heq.trans hid) (hother i hi)
      · exact hisource.trans hsource.symm
  · rcases hknown i hi with hi | hi <;> rcases hknown i' hi' with hi' | hi'
    · exact h.ids i hi i' hi' heq
    · exact absurd (heq.trans hi'.1) (hother i hi)
    · exact absurd (heq.symm.trans hi.1) (hother i' hi')
    · exact ⟨heq, hi.2.1.trans hi'.2.1.symm, hi.2.2.trans hi'.2.2.symm⟩

end Enqueue

theorem RecoveryInv.step (h : RecoveryInv history s) (hsound : Sound history s a)
    (hstep : s.step py a = some t) : RecoveryInv (history ++ [⟨s, a, t⟩]) t := by
  cases a with
  | enqueue call crash =>
      obtain ⟨v, hhalt, rfl⟩ := Option.map_eq_some_iff.mp hstep
      cases hkey : getByIdempotency s.vault.jobs call.idempotencyKey with
      | some existing =>
          obtain rfl := captureAndEnqueue_duplicate hkey hhalt
          exact h.calm (h.calm_jobs rfl rfl rfl (evolves_refl _)) (by rintro _ _ _ ⟨⟩)
      | none =>
          have hsound := hsound hkey
          have habsent : ∀ row ∈ s.vault.intakes.rows,
              row.record.intakeId ≠ callIntake call.request call.fresh :=
            fun row hrow heq => hsound.newIntake.1.1 ⟨row, hrow, heq⟩
          have hspec := @captureAndEnqueue_tables py _ _ hsound.newSource habsent
          have hleft : Left s.vault call.request call.fresh v :=
            hspec.halt (Or.inl (Superseding.refl _)) (fun _ _ hq => hq.1) hhalt
          have hsettled : crash = none → Settled s.vault call v := by
            rintro rfl
            cases hhalt
            exact (hspec s.vault rfl).2.2
          rcases hleft with hleft | ⟨version, hkind, hleft⟩
          · exact h.calm (hsound.calm h hleft) (by rintro _ _ _ ⟨⟩)
          · exact h.recording hsound hkind hleft hsettled
  | recover now newId crash =>
      obtain ⟨v, hhalt, rfl⟩ := Option.map_eq_some_iff.mp hstep
      have hv : Recovering s.vault v := (recoverVault_spec h.column).halt
        ⟨rfl, fun row hrow => ⟨row, hrow, ⟨rfl, rfl, rfl⟩, rfl, id⟩,
          fun j hj => Or.inl ⟨j, hj, rfl, rfl, rfl⟩, fun _ hjob => hjob⟩ (fun _ _ hq => hq) hhalt
      exact h.calm (h.calm_recover hv) (by rintro _ _ _ ⟨⟩)
  | cancel sourceId reason now =>
      obtain ⟨v, hv, rfl⟩ := Option.map_eq_some_iff.mp hstep
      obtain ⟨hcalm, hcancelled⟩ := h.calm_cancel hv
      refine h.calm hcalm ?_
      rintro _ _ _ ⟨⟩
      exact hcancelled
  | delete sourceId crash =>
      obtain ⟨v, hhalt, rfl⟩ := Option.map_eq_some_iff.mp hstep
      have hv : SameTables (deleteSourceCascade sourceId s.vault) v ∨ SameTables s.vault v :=
        (deleteSource_tables.conseq (fun _ hw => hw) (fun _ hw => Or.inl hw)
          fun _ _ hw => hw).halt (Or.inr ⟨rfl, rfl, rfl⟩) (fun _ _ hq => hq) hhalt
      rcases hv with hv | ⟨hsources, hintakes, hjobs⟩
      · exact h.calm (h.calm_delete hv) (by rintro _ _ _ ⟨⟩)
      · refine h.calm (h.calm_jobs hsources hintakes rfl ?_) (by rintro _ _ _ ⟨⟩)
        rw [hjobs]
        exact evolves_refl _
  | job action now =>
      cases hstep
      exact h.calm (h.calm_jobs rfl rfl rfl (JobAction.evolves _ now action))
        (by rintro _ _ _ ⟨⟩)
  | loadIntake intakeId =>
      obtain ⟨row, hrow, rfl⟩ := Option.map_eq_some_iff.mp hstep
      exact h.calm (h.calm_load (Table.mem_of_get hrow)) (by rintro _ _ _ ⟨⟩)
  | updateIntake copy status lastError =>
      obtain ⟨intake, hcopy, rfl⟩ := Option.map_eq_some_iff.mp hstep
      exact h.calm (h.calm_updateIntake (List.mem_of_getElem? hcopy) ⟨rfl, rfl, rfl⟩
        (hsound intake hcopy)) (by rintro _ _ _ ⟨⟩)
  | loadSource sourceId =>
      obtain ⟨source, -, rfl⟩ := Option.map_eq_some_iff.mp hstep
      exact h.calm (h.calm_jobs rfl rfl rfl (evolves_refl _)) (by rintro _ _ _ ⟨⟩)
  | updateSource copy edit =>
      obtain ⟨source, hcopy, rfl⟩ := Option.map_eq_some_iff.mp hstep
      refine h.calm (h.calm_updateSource fun current hcurrent => ?_) (by rintro _ _ _ ⟨⟩)
      rw [edit.edit_id] at hcurrent
      rw [edit.edit_versions]
      exact hsound source current hcopy hcurrent

/-! ## Runs -/

/-- Every step of the history is sound. -/
def SoundHistory (history : History) : Prop :=
  ∀ pre x post, history = pre ++ x :: post → Sound pre x.before x.action

/-- Recovery submits jobs for lost work only. -/
def OnlyLost (history : History) : Prop :=
  ∀ pre x post, history = pre ++ x :: post → ∀ now newId crash,
    x.action = .recover now newId crash → ∀ j ∈ x.after.vault.jobs.rows,
      (∀ j' ∈ x.before.vault.jobs.rows, j'.jobId ≠ j.jobId) →
        ∃ row ∈ x.before.vault.intakes.rows, row.record.intakeId = j.intakeId ∧
          Lost pre x.before.vault row.record

/-- No intake was captured, and no job was submitted. -/
def Initial (s : VaultSystem) : Prop :=
  s.vault.intakes.rows = [] ∧ s.vault.jobs.rows = [] ∧ s.intakes = []

theorem RecoveryInv.initial (h : Initial s) : RecoveryInv [] s := by
  obtain ⟨hintakes, hjobs, hcopies⟩ := h
  have hknown : known s = [] := by
    unfold known
    rw [hintakes, hcopies]
    rfl
  refine ⟨fun row hrow => ?_, fun row hrow => ?_, fun j hj => ?_, fun i hi => ?_⟩
  · rw [hintakes] at hrow
    cases hrow
  · rw [hintakes] at hrow
    cases hrow
  · rw [hjobs] at hj
    cases hj
  · rw [hknown] at hi
    cases hi

theorem RecoveryInv.run {s₀ : VaultSystem} (h₀ : Initial s₀)
    (hrun : Run (fun s a t => s.step py a = some t) s₀ history s)
    (hsound : SoundHistory history) : RecoveryInv history s := by
  induction hrun with
  | start => exact RecoveryInv.initial h₀
  | @step taken s t a hrun hstep ih =>
      have htaken : SoundHistory taken := by
        intro pre x post heq
        refine hsound pre x (post ++ [⟨s, a, t⟩]) ?_
        rw [heq, List.append_assoc, List.cons_append]
      exact (ih htaken).step (hsound taken ⟨s, a, t⟩ [] rfl) hstep

theorem recovery_only_lost {s₀ : VaultSystem} (h₀ : Initial s₀)
    (hrun : Run (fun s a t => s.step py a = some t) s₀ history s)
    (hsound : SoundHistory history) : OnlyLost history := by
  rintro pre ⟨before, a, after⟩ post heq now newId crash ha j hj hnew
  dsimp only at ha hj hnew
  subst ha
  obtain ⟨hpre, hstep, -⟩ := hrun.split heq
  have hsoundPre : SoundHistory pre := by
    intro pre' x post' heq'
    refine hsound pre' x (post' ++ ⟨before, .recover now newId crash, after⟩ :: post) ?_
    rw [heq, heq', List.append_assoc, List.cons_append]
  have hinv : RecoveryInv pre before := RecoveryInv.run h₀ hpre hsoundPre
  obtain ⟨v, hhalt, hafter⟩ := Option.map_eq_some_iff.mp hstep
  dsimp only at hafter
  subst hafter
  have hv : Recovering before.vault v := (recoverVault_spec hinv.column).halt
    ⟨rfl, fun row hrow => ⟨row, hrow, ⟨rfl, rfl, rfl⟩, rfl, id⟩,
      fun j hj => Or.inl ⟨j, hj, rfl, rfl, rfl⟩, fun _ hjob => hjob⟩ (fun _ _ hq => hq) hhalt
  rcases hv.jobs j hj with ⟨j', hj', hid, -⟩ | ⟨row, hrow, hstatus, hjobless, hid, -⟩
  · exact absurd hid (hnew j' hj')
  · exact ⟨row, hrow, hid, (hinv.lost row hrow hstatus hjobless).1⟩

def noteCall (sourceId : Option String) (data : Bytes) (n : String) : EnqueueCall where
  request := noteRequest sourceId data
  idempotencyKey := "key_" ++ n
  fresh := ⟨"src_" ++ n, "intake_" ++ n, "art_" ++ n, "2025-01-01T00:00:00+00:00"⟩
  jobId := "job_" ++ n
  now := 0

def emptySystem : VaultSystem := ⟨emptyVault, [], []⟩

/-- The last step of three is a recovery that submits the job of an intake which had one behind the
first. -/
def resubmits (intakeId jobId : String) : History → Bool
  | [first, _, ⟨before, .recover _ _ _, after⟩] =>
      first.after.vault.jobs.rows.any (fun j => j.intakeId = intakeId) &&
        before.vault.jobs.rows.all (fun j => j.jobId ≠ jobId) &&
          after.vault.jobs.rows.any fun j => j.jobId = jobId && j.intakeId = intakeId
  | _ => false

theorem not_onlyLost {intakeId jobId : String} (h : resubmits intakeId jobId history = true) :
    ¬ OnlyLost history := by
  unfold resubmits at h
  split at h
  · rename_i first second before now newId crash after
    simp only [Bool.and_eq_true, List.any_eq_true, List.all_eq_true, decide_eq_true_eq] at h
    obtain ⟨⟨⟨j₁, hj₁, hid₁⟩, hold⟩, j, hj, hjob, hid⟩ := h
    intro hlost
    obtain ⟨row, -, hrow, hl⟩ := hlost [first, second] ⟨before, .recover now newId crash, after⟩ []
      rfl now newId crash rfl j hj (fun j' hj' => by rw [hjob]; exact hold j' hj')
    exact hl.neverHad first (by simp) ⟨j₁, hj₁, by rw [hid₁, hrow, hid]⟩
  · cases h

/-- A second version supersedes the first, and recovery submits the first again. -/
def supersededSteps : List ServiceStep :=
  [.enqueue (noteCall none [97] "1") none, .enqueue (noteCall (some "src_1") [98] "2") none,
    .recover 0 (fun _ => "job_3") none]

theorem recovery_resubmits_superseded :
    ∃ history s,
      Run (fun s a t => VaultSystem.step plainPython s a = some t) emptySystem history s ∧
        ¬ OnlyLost history := by
  obtain ⟨history, s, hrun, hp⟩ := exists_run_of_trace (VaultSystem.step plainPython) emptySystem
    supersededSteps (fun r => resubmits "intake_1" "job_3" r.1) (by decide +kernel)
  exact ⟨history, s, hrun, not_onlyLost hp⟩

/-- The vault when a first capture stops behind its intake. -/
def noteCaptured : VaultSystem :=
  (VaultSystem.step plainPython emptySystem (.enqueue (noteCall none [97] "1") (some 5))).getD
    emptySystem

def noteRecovered : VaultSystem :=
  (VaultSystem.step plainPython noteCaptured (.recover 0 (fun _ => "job_2") none)).getD emptySystem

/-- The first capture of all. -/
theorem soundCapture_empty (data : Bytes) (crash : Option Nat) :
    SoundCapture [] emptySystem (noteCall none data "1") crash where
  newIntake := ⟨⟨by rintro ⟨_, ⟨⟩, _⟩, by rintro ⟨_, ⟨⟩, _⟩, by rintro _ ⟨⟩⟩, by rintro _ ⟨⟩⟩
  newSource := fun _ => rfl
  newJob := by rintro _ ⟨⟩
  keepsJobs := by rintro _ ⟨⟩
  waiting := by rintro _ ⟨⟩
  video := fun h => absurd h (by simp [noteCall, noteRequest])

theorem recovery_only_lost_interrupted :
    (∃ j ∈ noteRecovered.vault.jobs.rows, j.intakeId = "intake_1") ∧
      OnlyLost [⟨emptySystem, .enqueue (noteCall none [97] "1") (some 5), noteCaptured⟩,
        ⟨noteCaptured, .recover 0 (fun _ => "job_2") none, noteRecovered⟩] := by
  refine ⟨by decide, ?_⟩
  refine @recovery_only_lost plainPython _ noteRecovered emptySystem ⟨rfl, rfl, rfl⟩
    ((Run.start.step _ ?_).step _ ?_) ?_
  · rfl
  · rfl
  · intro pre x post heq
    rcases pre with _ | ⟨y, _ | ⟨z, pre⟩⟩
    · cases heq
      exact fun _ => soundCapture_empty [97] (some 5)
    · cases heq
      trivial
    · have hlength := congrArg List.length heq
      simp at hlength

end Openlia.Ingestion
