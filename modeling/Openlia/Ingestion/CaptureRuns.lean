import Openlia.Ingestion.Enqueued
import Openlia.Lib.Runs
import Mathlib.Logic.Function.Iterate

/-! # Interleaved captures

Any number of calls of `capture_and_enqueue` take their steps in any order: the lookup of the
key, the capture, the submission and the updates of the intake, the record and the search row.
-/

namespace Openlia.Ingestion

open Lib Crash

/-- How far a call has come. -/
inductive Phase where
  | started
  | missed
  | captured (captured : Captured)
  | submitted (captured : Captured) (job : Job)
  | linked (captured : Captured) (job : Job)
  | recorded (captured : Captured) (job : Job)
  | returned (answer : Enqueued) (created : Option Captured)
  | failed (error : String)

structure CaptureCall where
  call : EnqueueCall
  phase : Phase

structure CaptureSystem where
  vault : Vault
  calls : List CaptureCall

inductive CaptureStep where
  | begin (call : EnqueueCall)
  | advance (k : Nat)

/-- The call goes on, or it has raised. -/
def proceed {α : Type} (o : Outcome Vault String α) (next : α → Phase) : Vault × Phase :=
  match o.result with
  | .ok a => (o.final, next a)
  | .error e => (o.final, .failed e)

variable (py : Python)

/-- The next step of a call. -/
def Phase.advance (phase : Phase) (call : EnqueueCall) (v : Vault) : Vault × Phase :=
  match phase with
  | .started =>
      match getByIdempotency v.jobs call.idempotencyKey with
      | some existing => (v, .returned (duplicateOf existing) none)
      | none => (v, .missed)
  | .missed => proceed ((capture py call.request call.fresh).run v) .captured
  | .captured c =>
      proceed ((submitJob (captureSubmission call c) call.jobId call.now).run v) (.submitted c)
  | .submitted c job =>
      proceed ((updateIntake (queuedIntake c job)).run v) fun _ => .linked c job
  | .linked c job => proceed ((updateSource (queuedSource c job)).run v) fun _ => .recorded c job
  | .recorded c job =>
      proceed ((reindexSource (queuedSource c job) "queued").run v)
        fun _ => .returned (enqueuedAs c job) (some c)
  | .returned answer created => (v, .returned answer created)
  | .failed error => (v, .failed error)

def CaptureSystem.step (s : CaptureSystem) : CaptureStep → Option CaptureSystem
  | .begin call => some { s with calls := s.calls ++ [⟨call, .started⟩] }
  | .advance k =>
      s.calls[k]?.map fun c =>
        { vault := (c.phase.advance py c.call s.vault).1
          calls := s.calls.set k ⟨c.call, (c.phase.advance py c.call s.vault).2⟩ }

/-! ## One call alone -/

/-- What a call has returned or raised. -/
def Phase.result : Phase → Option (Except String Enqueued)
  | .returned answer _ => some (.ok answer)
  | .failed error => some (.error error)
  | _ => none

/-- One step of a call on the vault. -/
def advanceAlone (call : EnqueueCall) (state : Vault × Phase) : Vault × Phase :=
  state.2.advance py call state.1

variable {py} {call : EnqueueCall}

/-- A call that has ended stays so. -/
theorem advanceAlone_ended {n : Nat} {v : Vault} {phase : Phase} {r : Except String Enqueued}
    (h : phase.result = some r) : (advanceAlone py call)^[n] (v, phase) = (v, phase) := by
  induction n with
  | zero => rfl
  | succ n ih =>
      rw [Function.iterate_succ_apply]
      have hstay : advanceAlone py call (v, phase) = (v, phase) := by
        cases phase with
        | returned answer created => rfl
        | failed error => rfl
        | started => cases h
        | missed => cases h
        | captured c => cases h
        | submitted c job => cases h
        | linked c job => cases h
        | recorded c job => cases h
      rw [hstay, ih]

/-- The rest of a call is a step and what comes behind it. -/
theorem advanceAlone_proceed {α : Type} {p : VaultAction α} {k : α → VaultAction Enqueued}
    {next : α → Phase} {n : Nat} {v : Vault}
    (h : ∀ a w, ((advanceAlone py call)^[n] (w, next a)).1 = ((k a).run w).final ∧
      ((advanceAlone py call)^[n] (w, next a)).2.result = some ((k a).run w).result) :
    ((advanceAlone py call)^[n] (proceed (p.run v) next)).1 = ((p >>= k).run v).final ∧
      ((advanceAlone py call)^[n] (proceed (p.run v) next)).2.result =
        some ((p >>= k).run v).result := by
  unfold proceed
  cases hr : (p.run v).result with
  | error e =>
      rw [Prog.run_bind_error hr, advanceAlone_ended rfl]
      exact ⟨rfl, rfl⟩
  | ok a =>
      rw [Prog.run_bind_ok hr]
      exact h a _

/-- Six steps of a call that runs alone are `capture_and_enqueue`. -/
theorem advanceAlone_eq (v : Vault) :
    ((advanceAlone py call)^[6] (v, .started)).1 = ((captureAndEnqueue py call).run v).final ∧
      ((advanceAlone py call)^[6] (v, .started)).2.result =
        some ((captureAndEnqueue py call).run v).result := by
  rw [Function.iterate_succ_apply]
  unfold captureAndEnqueue
  rw [Prog.run_get_bind]
  cases hkey : getByIdempotency v.jobs call.idempotencyKey with
  | some existing =>
      have hstep : advanceAlone py call (v, .started) =
          (v, .returned (duplicateOf existing) none) := by
        unfold advanceAlone Phase.advance
        dsimp only
        rw [hkey]
      rw [hstep, advanceAlone_ended rfl]
      exact ⟨rfl, rfl⟩
  | none =>
      have hstep : advanceAlone py call (v, .started) = (v, .missed) := by
        unfold advanceAlone Phase.advance
        dsimp only
        rw [hkey]
      rw [hstep]
      exact advanceAlone_proceed fun c w => advanceAlone_proceed fun job w =>
        advanceAlone_proceed fun _ w => advanceAlone_proceed fun _ w =>
          @advanceAlone_proceed py call _ _ _ _ 0 _ fun _ w => ⟨rfl, rfl⟩

/-! ## The property and the condition -/

/-- The intake refers to a job of its own. -/
def OwnedIntake (jobs : JobTable) (intake : Intake) : Prop :=
  ∃ j ∈ jobs.rows, intake.jobId = some j.jobId ∧ j.intakeId = intake.intakeId ∧
    j.sourceId = intake.sourceId

/-- The record refers to a job of its own. -/
def OwnedSource (jobs : JobTable) (source : Source) : Prop :=
  ∃ j ∈ jobs.rows, source.processing.lastJobId = some j.jobId ∧ j.sourceId = source.id

/-- What a call has captured. -/
def Phase.created : Phase → Option Captured
  | .captured c => some c
  | .submitted c _ => some c
  | .linked c _ => some c
  | .recorded c _ => some c
  | .returned _ created => created
  | _ => none

structure Idempotent (s : CaptureSystem) : Prop where
  sameAnswer : ∀ c ∈ s.calls, ∀ c' ∈ s.calls, c.call.idempotencyKey = c'.call.idempotencyKey →
    ∀ answer created answer' created', c.phase = .returned answer created →
      c'.phase = .returned answer' created' →
        answer.sourceId = answer'.sourceId ∧ answer.jobId = answer'.jobId
  oneSource : ∀ c ∈ s.calls, ∀ c' ∈ s.calls, c.call.idempotencyKey = c'.call.idempotencyKey →
    ∀ x x', c.phase.created = some x → c'.phase.created = some x' → x.source.id = x'.source.id
  /-- Once every call has ended. -/
  owned : (∀ c ∈ s.calls, c.phase.result.isSome = true) →
    (∀ row ∈ s.vault.intakes.rows, OwnedIntake s.vault.jobs row.record) ∧
      ∀ source ∈ s.vault.sources.rows, OwnedSource s.vault.jobs source

/-- A capture that meets no other call of its key and takes no job. -/
structure MayCapture (s : CaptureSystem) (call : EnqueueCall) : Prop where
  unsubmitted : ∀ j ∈ s.vault.jobs.rows, j.idempotencyKey ≠ call.idempotencyKey
  alone : ∀ c ∈ s.calls, c.call.idempotencyKey = call.idempotencyKey →
    ∀ x, c.phase ≠ .captured x
  keepsJobs : ∀ j ∈ s.vault.jobs.rows,
    ¬ Deletes s.vault call.request (requestedSource call.request call.fresh)
      (callVersion s.vault call.request call.fresh) j
  newIntake : ∀ row ∈ s.vault.intakes.rows,
    row.record.intakeId ≠ callIntake call.request call.fresh
  newSource : call.request.sourceId = none → s.vault.sources.get call.fresh.sourceId = none
  safeIntake : safeId (callIntake call.request call.fresh) = true
  safeSource : safeId (requestedSource call.request call.fresh) = true

/-- The condition of a step; `new_id` gives a new id. -/
def MeetsCapture (s : CaptureSystem) : CaptureStep → Prop
  | .begin _ => True
  | .advance k => ∀ c, s.calls[k]? = some c →
      (c.phase = .missed → MayCapture s c.call) ∧
        ∀ x, c.phase = .captured x → ∀ j ∈ s.vault.jobs.rows, j.jobId ≠ c.call.jobId

/-- The keys of the jobs are unique, and every record refers to a job of its own. -/
structure WellLinked (v : Vault) : Prop where
  keys : ∀ j ∈ v.jobs.rows, ∀ j' ∈ v.jobs.rows, j.idempotencyKey = j'.idempotencyKey → j = j'
  intakes : ∀ row ∈ v.intakes.rows, OwnedIntake v.jobs row.record
  sources : ∀ source ∈ v.sources.rows, OwnedSource v.jobs source

/-! ## The invariant -/

/-- The ids of what was captured. -/
structure SoundIds (x : Captured) : Prop where
  source : x.intake.sourceId = x.source.id
  safeIntake : safeId x.intake.intakeId = true
  safeSource : safeId x.source.id = true

/-- The job of a capture. -/
structure JobOf (v : Vault) (call : EnqueueCall) (x : Captured) (j : Job) : Prop where
  mem : j ∈ v.jobs.rows
  key : j.idempotencyKey = call.idempotencyKey
  intake : j.intakeId = x.intake.intakeId
  source : j.sourceId = x.source.id

/-- What a phase says of the vault. -/
def Phase.Fits (v : Vault) (call : EnqueueCall) : Phase → Prop
  | .captured x => SoundIds x ∧
      ∀ j ∈ v.jobs.rows, j.idempotencyKey ≠ call.idempotencyKey
  | .submitted x j => SoundIds x ∧ JobOf v call x j
  | .linked x j => SoundIds x ∧ JobOf v call x j
  | .recorded x j => SoundIds x ∧ JobOf v call x j
  | .returned answer created => ∃ j ∈ v.jobs.rows, j.idempotencyKey = call.idempotencyKey ∧
      answer.jobId = j.jobId ∧ answer.sourceId = j.sourceId ∧
        ∀ x, created = some x → x.source.id = j.sourceId
  | _ => True

/-- The intake that has no job yet. -/
def Phase.pendingIntake : Phase → Option String
  | .captured x => some x.intake.intakeId
  | .submitted x _ => some x.intake.intakeId
  | _ => none

/-- The record that has no job yet. -/
def Phase.pendingSource : Phase → Option String
  | .captured x => some x.source.id
  | .submitted x _ => some x.source.id
  | .linked x _ => some x.source.id
  | _ => none

structure CaptureInv (s : CaptureSystem) : Prop where
  keys : ∀ j ∈ s.vault.jobs.rows, ∀ j' ∈ s.vault.jobs.rows,
    j.idempotencyKey = j'.idempotencyKey → j = j'
  fits : ∀ c ∈ s.calls, c.phase.Fits s.vault c.call
  apart : ∀ (k k' : Nat) (c c' : CaptureCall) (x x' : Captured), s.calls[k]? = some c →
    s.calls[k']? = some c' → c.phase = .captured x → c'.phase = .captured x' →
      c.call.idempotencyKey = c'.call.idempotencyKey → k = k'
  intakes : ∀ row ∈ s.vault.intakes.rows, OwnedIntake s.vault.jobs row.record ∨
    ∃ c ∈ s.calls, c.phase.pendingIntake = some row.record.intakeId
  sources : ∀ source ∈ s.vault.sources.rows, OwnedSource s.vault.jobs source ∨
    ∃ c ∈ s.calls, c.phase.pendingSource = some source.id

theorem CaptureInv.initial {v : Vault} (h : WellLinked v) : CaptureInv ⟨v, []⟩ where
  keys := h.keys
  fits := by rintro _ ⟨⟩
  apart := by
    intro k k' c c' x x' hc
    cases hc
  intakes := fun row hrow => Or.inl (h.intakes row hrow)
  sources := fun source hsource => Or.inl (h.sources source hsource)

/-- The job that a call has or refers to. -/
theorem Phase.Fits.created {v : Vault} {phase : Phase} {x : Captured} (h : phase.Fits v call)
    (hx : phase.created = some x) :
    (phase = .captured x ∧ ∀ j ∈ v.jobs.rows, j.idempotencyKey ≠ call.idempotencyKey) ∨
      ∃ j ∈ v.jobs.rows, j.idempotencyKey = call.idempotencyKey ∧ x.source.id = j.sourceId := by
  cases phase with
  | captured c =>
      cases hx
      exact Or.inl ⟨rfl, h.2⟩
  | submitted c j =>
      cases hx
      exact Or.inr ⟨j, h.2.mem, h.2.key, h.2.source.symm⟩
  | linked c j =>
      cases hx
      exact Or.inr ⟨j, h.2.mem, h.2.key, h.2.source.symm⟩
  | recorded c j =>
      cases hx
      exact Or.inr ⟨j, h.2.mem, h.2.key, h.2.source.symm⟩
  | returned answer created =>
      obtain ⟨j, hj, hkey, -, -, hsource⟩ := h
      exact Or.inr ⟨j, hj, hkey, hsource x hx⟩
  | started => cases hx
  | missed => cases hx
  | failed error => cases hx

variable {s t : CaptureSystem}

theorem CaptureInv.idempotent (h : CaptureInv s) : Idempotent s := by
  refine ⟨fun c hc c' hc' hkey answer created answer' created' hphase hphase' => ?_,
    fun c hc c' hc' hkey x x' hx hx' => ?_, fun hended =>
      ⟨fun row hrow => ?_, fun source hsource => ?_⟩⟩
  · have hfits := h.fits c hc
    have hfits' := h.fits c' hc'
    rw [hphase] at hfits
    rw [hphase'] at hfits'
    obtain ⟨j, hj, hjkey, hid, hsource, -⟩ := hfits
    obtain ⟨j', hj', hjkey', hid', hsource', -⟩ := hfits'
    obtain rfl := h.keys j hj j' hj' (hjkey.trans (hkey.trans hjkey'.symm))
    exact ⟨hsource.trans hsource'.symm, hid.trans hid'.symm⟩
  · rcases (h.fits c hc).created hx with ⟨hphase, hnone⟩ | ⟨j, hj, hjkey, hsource⟩
    · rcases (h.fits c' hc').created hx' with ⟨hphase', -⟩ | ⟨j', hj', hjkey', -⟩
      · obtain ⟨k, hk⟩ := List.mem_iff_getElem?.mp hc
        obtain ⟨k', hk'⟩ := List.mem_iff_getElem?.mp hc'
        obtain rfl := h.apart k k' c c' x x' hk hk' hphase hphase' hkey
        obtain rfl := Option.some.inj (hk.symm.trans hk')
        obtain rfl := Option.some.inj (hx.symm.trans hx')
        rfl
      · exact absurd (hjkey'.trans hkey.symm) (hnone j' hj')
    · rcases (h.fits c' hc').created hx' with ⟨-, hnone'⟩ | ⟨j', hj', hjkey', hsource'⟩
      · exact absurd (hjkey.trans hkey) (hnone' j hj)
      · obtain rfl := h.keys j hj j' hj' (hjkey.trans (hkey.trans hjkey'.symm))
        exact hsource.trans hsource'.symm
  · rcases h.intakes row hrow with howned | ⟨c, hc, hpending⟩
    · exact howned
    · have hend := hended c hc
      cases hphase : c.phase <;> rw [hphase] at hend hpending <;>
        first | cases hpending | cases hend
  · rcases h.sources source hsource with howned | ⟨c, hc, hpending⟩
    · exact howned
    · have hend := hended c hc
      cases hphase : c.phase <;> rw [hphase] at hend hpending <;>
        first | cases hpending | cases hend

theorem Phase.Fits.mono {v w : Vault} {phase : Phase} (h : phase.Fits v call)
    (hjobs : ∀ j ∈ v.jobs.rows, j ∈ w.jobs.rows)
    (hcaptured : ∀ x, phase = .captured x →
      ∀ j ∈ w.jobs.rows, j.idempotencyKey ≠ call.idempotencyKey) : phase.Fits w call := by
  cases phase with
  | captured x => exact ⟨h.1, hcaptured x rfl⟩
  | submitted x j => exact ⟨h.1, hjobs j h.2.mem, h.2.key, h.2.intake, h.2.source⟩
  | linked x j => exact ⟨h.1, hjobs j h.2.mem, h.2.key, h.2.intake, h.2.source⟩
  | recorded x j => exact ⟨h.1, hjobs j h.2.mem, h.2.key, h.2.intake, h.2.source⟩
  | returned answer created =>
      obtain ⟨j, hj, hrest⟩ := h
      exact ⟨j, hjobs j hj, hrest⟩
  | started => trivial
  | missed => trivial
  | failed error => trivial

theorem OwnedIntake.mono {jobs jobs' : JobTable} {intake : Intake} (h : OwnedIntake jobs intake)
    (hjobs : ∀ j ∈ jobs.rows, j ∈ jobs'.rows) : OwnedIntake jobs' intake := by
  obtain ⟨j, hj, hown⟩ := h
  exact ⟨j, hjobs j hj, hown⟩

theorem OwnedSource.mono {jobs jobs' : JobTable} {source : Source} (h : OwnedSource jobs source)
    (hjobs : ∀ j ∈ jobs.rows, j ∈ jobs'.rows) : OwnedSource jobs' source := by
  obtain ⟨j, hj, hown⟩ := h
  exact ⟨j, hjobs j hj, hown⟩

/-- What the step of a call may do to the tables. -/
structure Advances (s : CaptureSystem) (c : CaptureCall) (v : Vault) (phase : Phase) : Prop where
  jobs : ∀ j ∈ s.vault.jobs.rows, j ∈ v.jobs.rows
  newJobs : ∀ j ∈ v.jobs.rows, j ∈ s.vault.jobs.rows ∨
    j.idempotencyKey = c.call.idempotencyKey ∧ ∃ x, c.phase = .captured x
  keys : ∀ j ∈ v.jobs.rows, ∀ j' ∈ v.jobs.rows, j.idempotencyKey = j'.idempotencyKey → j = j'
  fits : phase.Fits v c.call
  alone : ∀ x, phase = .captured x → ∀ c' ∈ s.calls,
    c'.call.idempotencyKey = c.call.idempotencyKey → ∀ x', c'.phase ≠ .captured x'
  intakes : ∀ row ∈ v.intakes.rows, OwnedIntake v.jobs row.record ∨
    phase.pendingIntake = some row.record.intakeId ∨
      row ∈ s.vault.intakes.rows ∧ c.phase.pendingIntake ≠ some row.record.intakeId
  sources : ∀ source ∈ v.sources.rows, OwnedSource v.jobs source ∨
    phase.pendingSource = some source.id ∨
      source ∈ s.vault.sources.rows ∧ c.phase.pendingSource ≠ some source.id

theorem CaptureInv.advances (h : CaptureInv s) {k : Nat} {c : CaptureCall} {v : Vault}
    {phase : Phase} (hk : s.calls[k]? = some c) (ha : Advances s c v phase) :
    CaptureInv ⟨v, s.calls.set k ⟨c.call, phase⟩⟩ := by
  have hlt : k < s.calls.length := (List.getElem?_eq_some_iff.mp hk).1
  have hset : ∀ i c', (s.calls.set k ⟨c.call, phase⟩)[i]? = some c' →
      i = k ∧ c' = ⟨c.call, phase⟩ ∨ i ≠ k ∧ s.calls[i]? = some c' := by
    intro i c' hi
    by_cases heq : i = k
    · subst heq
      rw [List.getElem?_set_self hlt] at hi
      exact Or.inl ⟨rfl, (Option.some.inj hi).symm⟩
    · rw [List.getElem?_set_ne (Ne.symm heq)] at hi
      exact Or.inr ⟨heq, hi⟩
  have hnew : (⟨c.call, phase⟩ : CaptureCall) ∈ s.calls.set k ⟨c.call, phase⟩ :=
    List.mem_iff_getElem?.mpr ⟨k, List.getElem?_set_self hlt⟩
  have hold : ∀ (f : Phase → Option String) (id : String), f c.phase ≠ some id →
      (∃ c' ∈ s.calls, f c'.phase = some id) →
        ∃ c' ∈ s.calls.set k ⟨c.call, phase⟩, f c'.phase = some id := by
    rintro f id hne ⟨c', hc', hf⟩
    obtain ⟨i, hi⟩ := List.mem_iff_getElem?.mp hc'
    have hik : i ≠ k := by
      rintro rfl
      obtain rfl := Option.some.inj (hk.symm.trans hi)
      exact hne hf
    exact ⟨c', List.mem_iff_getElem?.mpr ⟨i, by rw [List.getElem?_set_ne (Ne.symm hik)]; exact hi⟩,
      hf⟩
  refine ⟨ha.keys, fun c' hc' => ?_, fun i i' c₁ c₂ x x' h₁ h₂ hx hx' hkey => ?_,
    fun row hrow => ?_, fun source hsource => ?_⟩
  · obtain ⟨i, hi⟩ := List.mem_iff_getElem?.mp hc'
    rcases hset i c' hi with ⟨-, rfl⟩ | ⟨hik, hi⟩
    · exact ha.fits
    · refine (h.fits c' (List.mem_of_getElem? hi)).mono ha.jobs fun x hx j hj => ?_
      have hfits := h.fits c' (List.mem_of_getElem? hi)
      rw [hx] at hfits
      rcases ha.newJobs j hj with hj | ⟨hjkey, y, hy⟩
      · exact hfits.2 j hj
      · exact fun heq => hik (h.apart i k c' c x y hi hk hx hy (heq.symm.trans hjkey))
  · rcases hset i c₁ h₁ with ⟨rfl, rfl⟩ | ⟨-, hi⟩ <;>
      rcases hset i' c₂ h₂ with ⟨rfl, rfl⟩ | ⟨-, hi'⟩
    · rfl
    · exact absurd hx' (ha.alone x hx c₂ (List.mem_of_getElem? hi') hkey.symm x')
    · exact absurd hx (ha.alone x' hx' c₁ (List.mem_of_getElem? hi) hkey x)
    · exact h.apart i i' c₁ c₂ x x' hi hi' hx hx' hkey
  · rcases ha.intakes row hrow with howned | hpending | ⟨hrow, hne⟩
    · exact Or.inl howned
    · exact Or.inr ⟨_, hnew, hpending⟩
    · rcases h.intakes row hrow with howned | hpending
      · exact Or.inl (howned.mono ha.jobs)
      · exact Or.inr (hold Phase.pendingIntake _ hne hpending)
  · rcases ha.sources source hsource with howned | hpending | ⟨hsource, hne⟩
    · exact Or.inl howned
    · exact Or.inr ⟨_, hnew, hpending⟩
    · rcases h.sources source hsource with howned | hpending
      · exact Or.inl (howned.mono ha.jobs)
      · exact Or.inr (hold Phase.pendingSource _ hne hpending)

/-! ## The steps of a call -/

/-- A step that leaves the jobs as they are, and is no capture. -/
theorem Advances.of_jobs {c : CaptureCall} {v : Vault} {phase : Phase} (h : CaptureInv s)
    (hjobs : v.jobs = s.vault.jobs) (hfits : phase.Fits v c.call)
    (hphase : ∀ x, phase ≠ .captured x)
    (hintakes : ∀ row ∈ v.intakes.rows, OwnedIntake v.jobs row.record ∨
      phase.pendingIntake = some row.record.intakeId ∨
        row ∈ s.vault.intakes.rows ∧ c.phase.pendingIntake ≠ some row.record.intakeId)
    (hsources : ∀ source ∈ v.sources.rows, OwnedSource v.jobs source ∨
      phase.pendingSource = some source.id ∨
        source ∈ s.vault.sources.rows ∧ c.phase.pendingSource ≠ some source.id) :
    Advances s c v phase where
  jobs := by
    rw [hjobs]
    exact fun j hj => hj
  newJobs := by
    rw [hjobs]
    exact fun j hj => Or.inl hj
  keys := by
    rw [hjobs]
    exact h.keys
  fits := hfits
  alone := fun x hx => absurd hx (hphase x)
  intakes := hintakes
  sources := hsources

/-- A step that leaves the tables as they are. -/
theorem Advances.idle {c : CaptureCall} {phase : Phase} (h : CaptureInv s)
    (hfits : phase.Fits s.vault c.call) (hphase : ∀ x, phase ≠ .captured x)
    (hintake : c.phase.pendingIntake = none) (hsource : c.phase.pendingSource = none) :
    Advances s c s.vault phase := by
  refine .of_jobs h rfl hfits hphase (fun row hrow => Or.inr (Or.inr ⟨hrow, ?_⟩))
    fun source hs => Or.inr (Or.inr ⟨hs, ?_⟩)
  · rw [hintake]
    exact (Option.some_ne_none _).symm
  · rw [hsource]
    exact (Option.some_ne_none _).symm

theorem CaptureInv.lookup (h : CaptureInv s) {c : CaptureCall} (hphase : c.phase = .started) :
    Advances s c (Phase.started.advance py c.call s.vault).1
      (Phase.started.advance py c.call s.vault).2 := by
  unfold Phase.advance
  dsimp only
  cases hkey : getByIdempotency s.vault.jobs c.call.idempotencyKey with
  | none =>
      exact .idle h trivial (by rintro _ ⟨⟩) (by rw [hphase]; rfl) (by rw [hphase]; rfl)
  | some existing =>
      refine .idle h ⟨existing, List.mem_of_find?_eq_some hkey, ?_, rfl, rfl, ?_⟩
        (by rintro _ ⟨⟩) (by rw [hphase]; rfl) (by rw [hphase]; rfl)
      · simpa using List.find?_some hkey
      · rintro _ ⟨⟩

/-- What a capture that stops with an error may leave. -/
theorem CaptureInv.refused (h : CaptureInv s) {c : CaptureCall} {v : Vault} {e : String}
    (hphase : c.phase = .missed) (hc : MayCapture s c.call)
    (hv : Superseding s.vault c.call.request (requestedSource c.call.request c.call.fresh)
      (callVersion s.vault c.call.request c.call.fresh) v) :
    Advances s c v (.failed e) where
  jobs := fun j hj => hv.kept j hj (hc.keepsJobs j hj)
  newJobs := fun j hj => Or.inl (hv.fewer j hj)
  keys := fun j hj j' hj' => h.keys j (hv.fewer j hj) j' (hv.fewer j' hj')
  fits := trivial
  alone := by rintro _ ⟨⟩
  intakes := fun row hrow => by
    rw [hv.intakes] at hrow
    exact Or.inr (Or.inr ⟨hrow, by rw [hphase]; exact (Option.some_ne_none _).symm⟩)
  sources := fun source hsource => by
    rw [hv.sources] at hsource
    exact Or.inr (Or.inr ⟨hsource, by rw [hphase]; exact (Option.some_ne_none _).symm⟩)

theorem CaptureInv.handedOn (h : CaptureInv s) {c : CaptureCall} {v : Vault} {x : Captured}
    {version : Option Version} (hphase : c.phase = .missed) (hc : MayCapture s c.call)
    (hv : HandedOn s.vault c.call.request c.call.fresh x version v) :
    Advances s c v (.captured x) where
  jobs := fun j hj => hv.unsubmitted.1.kept j hj (hc.keepsJobs j hj)
  newJobs := fun j hj => Or.inl (hv.unsubmitted.2 j hj)
  keys := fun j hj j' hj' => h.keys j (hv.unsubmitted.2 j hj) j' (hv.unsubmitted.2 j' hj')
  fits := by
    refine ⟨⟨hv.intakeSource.trans hv.source.symm, ?_, ?_⟩,
      fun j hj => hc.unsubmitted j (hv.unsubmitted.2 j hj)⟩
    · rw [hv.intake]
      exact hc.safeIntake
    · rw [hv.source]
      exact hc.safeSource
  alone := fun _ _ => hc.alone
  intakes := fun row hrow => by
    rcases hv.unsubmitted.1.rows row hrow with hrow | hown
    · exact Or.inr (Or.inr ⟨hrow, by rw [hphase]; exact (Option.some_ne_none _).symm⟩)
    · exact Or.inr (Or.inl (congrArg some (hv.intake.trans hown.1.symm)))
  sources := fun source hsource => by
    by_cases hid : source.id = requestedSource c.call.request c.call.fresh
    · exact Or.inr (Or.inl (congrArg some (hv.source.trans hid.symm)))
    · have hget := hv.unsubmitted.1.others source.id hid
      rw [Table.get_of_mem hsource] at hget
      refine Or.inr (Or.inr ⟨Table.mem_of_get hget.symm, ?_⟩)
      rw [hphase]
      exact (Option.some_ne_none _).symm

theorem CaptureInv.capture (h : CaptureInv s) {c : CaptureCall} (hphase : c.phase = .missed)
    (hc : MayCapture s c.call) :
    Advances s c (Phase.missed.advance py c.call s.vault).1
      (Phase.missed.advance py c.call s.vault).2 := by
  have htables := ((@capture_tables py s.vault c.call.request c.call.fresh hc.newSource
    hc.newIntake) s.vault rfl).2
  unfold Phase.advance proceed
  dsimp only
  cases hresult : ((Ingestion.capture py c.call.request c.call.fresh).run s.vault).result with
  | error e => exact h.refused hphase hc (htables.2.1 e hresult)
  | ok x =>
      obtain ⟨version, hv⟩ := htables.2.2 x hresult
      exact h.handedOn hphase hc hv

theorem CaptureInv.submit (h : CaptureInv s) {c : CaptureCall} (hmem : c ∈ s.calls)
    {x : Captured} (hphase : c.phase = .captured x)
    (hnew : ∀ j ∈ s.vault.jobs.rows, j.jobId ≠ c.call.jobId) :
    Advances s c ((Phase.captured x).advance py c.call s.vault).1
      ((Phase.captured x).advance py c.call s.vault).2 := by
  have hfits := h.fits c hmem
  rw [hphase] at hfits
  obtain ⟨hids, hnone⟩ := hfits
  have hkey : getByIdempotency s.vault.jobs c.call.idempotencyKey = none := by
    unfold getByIdempotency
    rw [List.find?_eq_none]
    exact fun j hj => by simpa using hnone j hj
  let row := (captureSubmission c.call x).row c.call.jobId c.call.now
  obtain ⟨jobs, hinsert⟩ := (@Table.insert_isSome _ _ _ _ s.vault.jobs row).mpr hnew
  have hsubmit : Ingestion.submit s.vault.jobs (captureSubmission c.call x) c.call.jobId
      c.call.now = .ok (row, jobs) := by
    unfold Ingestion.submit
    have hkey' : getByIdempotency s.vault.jobs (captureSubmission c.call x).idempotencyKey =
        none := hkey
    rw [hkey', hinsert]
  have hrun : (submitJob (captureSubmission c.call x) c.call.jobId c.call.now).run s.vault =
      ⟨[{ s.vault with jobs }], { s.vault with jobs }, .ok row⟩ := by
    unfold submitJob
    rw [Prog.run_get_bind, hsubmit]
    rfl
  have hmemJobs : ∀ j, j ∈ jobs.rows ↔ j ∈ s.vault.jobs.rows ∨ j = row :=
    fun j => Table.mem_insert hinsert
  have hstep : (Phase.captured x).advance py c.call s.vault =
      ({ s.vault with jobs }, .submitted x row) := by
    unfold Phase.advance proceed
    dsimp only
    rw [hrun]
  rw [hstep]
  refine ⟨fun j hj => (hmemJobs j).mpr (Or.inl hj), fun j hj => ?_, fun j hj j' hj' heq => ?_,
    ⟨hids, (hmemJobs row).mpr (Or.inr rfl), rfl, rfl, hids.source⟩, by rintro _ ⟨⟩,
    fun r hr => ?_, fun source hsource => ?_⟩
  · rcases (hmemJobs j).mp hj with hj | rfl
    · exact Or.inl hj
    · exact Or.inr ⟨rfl, x, hphase⟩
  · rcases (hmemJobs j).mp hj with hj | rfl <;> rcases (hmemJobs j').mp hj' with hj' | rfl
    · exact h.keys j hj j' hj' heq
    · exact absurd heq (hnone j hj)
    · exact absurd heq.symm (hnone j' hj')
    · rfl
  · by_cases hpending : x.intake.intakeId = r.record.intakeId
    · exact Or.inr (Or.inl (congrArg some hpending))
    · refine Or.inr (Or.inr ⟨hr, ?_⟩)
      rw [hphase]
      exact fun heq => hpending (Option.some.inj heq)
  · by_cases hpending : x.source.id = source.id
    · exact Or.inr (Or.inl (congrArg some hpending))
    · refine Or.inr (Or.inr ⟨hsource, ?_⟩)
      rw [hphase]
      exact fun heq => hpending (Option.some.inj heq)

theorem CaptureInv.linkIntake (h : CaptureInv s) {c : CaptureCall} (hmem : c ∈ s.calls)
    {x : Captured} {job : Job} (hphase : c.phase = .submitted x job) :
    Advances s c ((Phase.submitted x job).advance py c.call s.vault).1
      ((Phase.submitted x job).advance py c.call s.vault).2 := by
  have hfits := h.fits c hmem
  rw [hphase] at hfits
  obtain ⟨hids, hjob⟩ := hfits
  have hrun : (updateIntake (queuedIntake x job)).run s.vault =
      ⟨[saveIntake (queuedIntake x job) s.vault], saveIntake (queuedIntake x job) s.vault,
        .ok ()⟩ := by
    unfold updateIntake
    rw [if_pos (show safeId (queuedIntake x job).intakeId = true from hids.safeIntake)]
    rfl
  have hstep : (Phase.submitted x job).advance py c.call s.vault =
      (saveIntake (queuedIntake x job) s.vault, .linked x job) := by
    unfold Phase.advance proceed
    dsimp only
    rw [hrun]
  rw [hstep]
  refine .of_jobs h rfl ⟨hids, hjob.mem, hjob.key, hjob.intake, hjob.source⟩ (by rintro _ ⟨⟩)
    (fun row hrow => ?_) fun source hsource => ?_
  · rcases Table.mem_upsert.mp hrow with rfl | ⟨hrow, hne⟩
    · exact Or.inl ⟨job, hjob.mem, rfl, hjob.intake, hjob.source.trans hids.source.symm⟩
    · refine Or.inr (Or.inr ⟨hrow, ?_⟩)
      rw [hphase]
      exact fun heq => hne (Option.some.inj heq).symm
  · by_cases hpending : x.source.id = source.id
    · exact Or.inr (Or.inl (congrArg some hpending))
    · refine Or.inr (Or.inr ⟨hsource, ?_⟩)
      rw [hphase]
      exact fun heq => hpending (Option.some.inj heq)

theorem CaptureInv.linkSource (h : CaptureInv s) {c : CaptureCall} (hmem : c ∈ s.calls)
    {x : Captured} {job : Job} (hphase : c.phase = .linked x job) :
    Advances s c ((Phase.linked x job).advance py c.call s.vault).1
      ((Phase.linked x job).advance py c.call s.vault).2 := by
  have hfits := h.fits c hmem
  rw [hphase] at hfits
  obtain ⟨hids, hjob⟩ := hfits
  have hrun : (updateSource (queuedSource x job)).run s.vault =
      ⟨[saveSource (queuedSource x job) s.vault], saveSource (queuedSource x job) s.vault,
        .ok ()⟩ := by
    unfold updateSource
    rw [if_pos (show safeId (queuedSource x job).id = true from hids.safeSource)]
    rfl
  have hstep : (Phase.linked x job).advance py c.call s.vault =
      (saveSource (queuedSource x job) s.vault, .recorded x job) := by
    unfold Phase.advance proceed
    dsimp only
    rw [hrun]
  rw [hstep]
  refine .of_jobs h rfl ⟨hids, hjob.mem, hjob.key, hjob.intake, hjob.source⟩ (by rintro _ ⟨⟩)
    (fun row hrow => ?_) fun source hsource => ?_
  · exact Or.inr (Or.inr ⟨hrow, by rw [hphase]; exact (Option.some_ne_none _).symm⟩)
  · rcases Table.mem_upsert.mp hsource with rfl | ⟨hsource, hne⟩
    · exact Or.inl ⟨job, hjob.mem, rfl, hjob.source⟩
    · refine Or.inr (Or.inr ⟨hsource, ?_⟩)
      rw [hphase]
      exact fun heq => hne (Option.some.inj heq).symm

theorem CaptureInv.reindex (h : CaptureInv s) {c : CaptureCall} (hmem : c ∈ s.calls)
    {x : Captured} {job : Job} (hphase : c.phase = .recorded x job) :
    Advances s c ((Phase.recorded x job).advance py c.call s.vault).1
      ((Phase.recorded x job).advance py c.call s.vault).2 := by
  have hfits := h.fits c hmem
  rw [hphase] at hfits
  obtain ⟨-, hjob⟩ := hfits
  refine .of_jobs h rfl ⟨job, hjob.mem, hjob.key, rfl, hjob.source.symm, ?_⟩ (by rintro _ ⟨⟩)
    (fun row hrow => Or.inr (Or.inr ⟨hrow, ?_⟩)) fun source hs => Or.inr (Or.inr ⟨hs, ?_⟩)
  · rintro _ ⟨⟩
    exact hjob.source.symm
  · rw [hphase]
    exact (Option.some_ne_none _).symm
  · rw [hphase]
    exact (Option.some_ne_none _).symm

theorem CaptureInv.advance (h : CaptureInv s) {k : Nat} {c : CaptureCall}
    (hk : s.calls[k]? = some c) (hc : MeetsCapture s (.advance k)) :
    Advances s c (c.phase.advance py c.call s.vault).1 (c.phase.advance py c.call s.vault).2 := by
  have hmem := List.mem_of_getElem? hk
  obtain ⟨hcapture, hsubmit⟩ := hc c hk
  cases hphase : c.phase with
  | started => exact h.lookup hphase
  | missed => exact h.capture hphase (hcapture hphase)
  | captured x => exact h.submit hmem hphase (hsubmit x hphase)
  | submitted x job => exact h.linkIntake hmem hphase
  | linked x job => exact h.linkSource hmem hphase
  | recorded x job => exact h.reindex hmem hphase
  | returned answer created =>
      have hfits := h.fits c hmem
      rw [hphase] at hfits
      exact .idle h hfits (by rintro _ ⟨⟩) (by rw [hphase]; rfl) (by rw [hphase]; rfl)
  | failed error =>
      exact .idle h trivial (by rintro _ ⟨⟩) (by rw [hphase]; rfl) (by rw [hphase]; rfl)

/-! ## Runs -/

theorem CaptureInv.begin (h : CaptureInv s) (call : EnqueueCall) :
    CaptureInv { s with calls := s.calls ++ [⟨call, .started⟩] } where
  keys := h.keys
  fits := by
    intro c hc
    rcases List.mem_append.mp hc with hc | hc
    · exact h.fits c hc
    · obtain rfl := List.mem_singleton.mp hc
      trivial
  apart := by
    intro k k' c c' x x' hk hk' hx hx'
    rcases getElem?_concat_cases hk with hk | ⟨-, rfl⟩
    · rcases getElem?_concat_cases hk' with hk' | ⟨-, rfl⟩
      · exact h.apart k k' c c' x x' hk hk' hx hx'
      · cases hx'
    · cases hx
  intakes := fun row hrow => (h.intakes row hrow).imp_right fun ⟨c, hc, hp⟩ =>
    ⟨c, List.mem_append_left _ hc, hp⟩
  sources := fun source hs => (h.sources source hs).imp_right fun ⟨c, hc, hp⟩ =>
    ⟨c, List.mem_append_left _ hc, hp⟩

theorem CaptureInv.step (h : CaptureInv s) {a : CaptureStep}
    (hstep : CaptureSystem.step py s a = some t) (hc : MeetsCapture s a) : CaptureInv t := by
  cases a with
  | begin call =>
      cases hstep
      exact h.begin call
  | advance k =>
      obtain ⟨c, hk, rfl⟩ := Option.map_eq_some_iff.mp hstep
      exact h.advances hk (h.advance hk hc)

/-- In a run whose steps meet the condition a key stands for one source and one job, and no
record is left without a job of its own. -/
theorem capture_idempotent {v : Vault} {taken : List (Lib.Taken CaptureSystem CaptureStep)}
    (hv : WellLinked v)
    (hrun : Run (fun s a t => CaptureSystem.step py s a = some t) ⟨v, []⟩ taken s)
    (hmeets : ∀ x ∈ taken, MeetsCapture x.before x.action) :
    Idempotent s ∧ ∀ x ∈ taken, Idempotent x.before ∧ Idempotent x.after := by
  obtain ⟨hend, hall⟩ := @Run.invariant_of _ _ _ _ _ _ CaptureInv
    (fun x => MeetsCapture x.before x.action) hrun (CaptureInv.initial hv)
    (fun s a t hs hstep hc => hs.step hstep hc) hmeets
  exact ⟨hend.idempotent, fun x hx => ⟨(hall x hx).1.idempotent, (hall x hx).2.idempotent⟩⟩

/-- A capture of a text, with the same key as any other. -/
def keyedCall (n : String) : EnqueueCall where
  request := noteRequest none [97]
  idempotencyKey := "key"
  fresh := ⟨"src_" ++ n, "intake_" ++ n, "art_" ++ n, "2025-01-01T00:00:00+00:00"⟩
  jobId := "job_" ++ n
  now := 0

def noCaptures : CaptureSystem := ⟨emptyVault, []⟩

theorem noCaptures_wellLinked : WellLinked emptyVault :=
  ⟨by rintro _ ⟨⟩, by rintro _ ⟨⟩, by rintro _ ⟨⟩⟩

/-- The first two calls have one key and return two sources. -/
def returnsTwo (s : CaptureSystem) : Bool :=
  match s.calls with
  | [⟨call, .returned answer _⟩, ⟨call', .returned answer' _⟩] =>
      call.idempotencyKey = call'.idempotencyKey && answer.sourceId ≠ answer'.sourceId
  | _ => false

theorem not_idempotent (h : returnsTwo s = true) : ¬ Idempotent s := by
  unfold returnsTwo at h
  split at h
  · rename_i call answer created call' answer' created' hcalls
    simp only [Bool.and_eq_true, decide_eq_true_eq] at h
    exact fun hs => h.2 (hs.sameAnswer ⟨call, .returned answer created⟩ (by simp [hcalls])
      ⟨call', .returned answer' created'⟩ (by simp [hcalls]) h.1 _ _ _ _ rfl rfl).1
  · cases h

/-- Two calls look the key up before either has captured. -/
def racingSteps : List CaptureStep :=
  [.begin (keyedCall "1"), .begin (keyedCall "2")] ++
    (List.replicate 6 [.advance 0, .advance 1]).flatten

theorem racing_captures_not_idempotent :
    ∃ taken s, Run (fun s a t => CaptureSystem.step plainPython s a = some t) noCaptures taken s ∧
      ¬ Idempotent s := by
  obtain ⟨taken, s, hrun, hp⟩ := exists_run_of_trace (CaptureSystem.step plainPython) noCaptures
    racingSteps (fun r => returnsTwo r.2) (by decide +kernel)
  exact ⟨taken, s, hrun, not_idempotent hp⟩

/-- One call runs alone on a vault without records. -/
def runsAlone (x : Lib.Taken CaptureSystem CaptureStep) : Bool :=
  match x.before.calls with
  | [] => true
  | [⟨call, .missed⟩] =>
      x.before.vault.jobs.rows.isEmpty && x.before.vault.intakes.rows.isEmpty &&
        x.before.vault.sources.rows.isEmpty &&
        safeId (callIntake call.request call.fresh) &&
        safeId (requestedSource call.request call.fresh)
  | [⟨_, .captured _⟩] => x.before.vault.jobs.rows.isEmpty
  | [_] => true
  | _ => false

theorem runsAlone_meets {x : Lib.Taken CaptureSystem CaptureStep} (h : runsAlone x = true) :
    MeetsCapture x.before x.action := by
  obtain ⟨before, a, after⟩ := x
  cases a with
  | begin call => trivial
  | advance k =>
      intro c hk
      obtain ⟨c₁, hcalls⟩ : ∃ c₁, before.calls = [c₁] := by
        unfold runsAlone at h
        split at h
        · rename_i hcalls
          rw [show before.calls = [] from hcalls] at hk
          cases hk
        · exact ⟨_, ‹_›⟩
        · exact ⟨_, ‹_›⟩
        · exact ⟨_, ‹_›⟩
        · cases h
      have hmem := List.mem_of_getElem? hk
      rw [hcalls] at hmem
      obtain rfl := List.mem_singleton.mp hmem
      obtain ⟨call, phase⟩ := c
      unfold runsAlone at h
      dsimp only at h
      rw [hcalls] at h
      refine ⟨?_, ?_⟩
      · rintro rfl
        simp only [Bool.and_eq_true, List.isEmpty_iff] at h
        obtain ⟨⟨⟨⟨hjobs, hintakes⟩, hsources⟩, hintake⟩, hsource⟩ := h
        refine ⟨?_, ?_, ?_, ?_, ?_, hintake, hsource⟩
        · rw [hjobs]
          rintro _ ⟨⟩
        · intro c hc _ x hx
          rw [hcalls] at hc
          obtain rfl := List.mem_singleton.mp hc
          cases hx
        · rw [hjobs]
          rintro _ ⟨⟩
        · rw [hintakes]
          rintro _ ⟨⟩
        · intro _
          unfold Table.get
          rw [hsources]
          rfl
      · rintro x rfl
        rw [List.isEmpty_iff.mp h]
        rintro _ ⟨⟩

theorem capture_idempotent_alone :
    ∃ s, (∃ c ∈ s.calls, c.phase.result.isSome = true) ∧ Idempotent s := by
  obtain ⟨taken, s, hrun, hp⟩ := exists_run_of_trace (CaptureSystem.step plainPython) noCaptures
    (.begin (keyedCall "1") :: List.replicate 6 (.advance 0))
    (fun r => r.1.all runsAlone && r.2.calls.any fun c => c.phase.result.isSome)
    (by decide +kernel)
  simp only [Bool.and_eq_true, List.all_eq_true, List.any_eq_true] at hp
  exact ⟨s, hp.2, (capture_idempotent noCaptures_wellLinked hrun fun x hx =>
    runsAlone_meets (hp.1 x hx)).1⟩

end Openlia.Ingestion
