import Mathlib.Algebra.Order.BigOperators.Group.List
import Mathlib.Algebra.Order.Floor.Semiring
import Mathlib.Data.List.Sort
import Mathlib.Data.Rat.Floor
import Mathlib.Tactic.Linarith
import Mathlib.Tactic.NormNum

/-! # The progress of a migration, computed twice

The operator and the Workspace UI read the same rows. They count alike; the mean time of a
job is a sum of the same kind over different numbers of intervals.
-/

namespace Openlia.Progress

/-- The columns of `jobs` that the queries read. -/
structure JobRow where
  migrationID : String
  sourceID : String
  state : String
  updatedAt : String
  deriving DecidableEq

structure SourceRow where
  id : String
  relativePath : String
  deriving DecidableEq

structure MigrationProgress where
  total : Nat
  completed : Nat
  succeeded : Nat
  running : Nat
  pending : Nat
  failed : Nat
  percent : Nat
  currentFile : Option String
  avgDurationSec : Nat
  etaSeconds : Option Nat
  deriving DecidableEq

def jobPending : String := "pending"
def jobRunning : String := "running"
def jobSucceeded : String := "succeeded"
def jobNoChange : String := "no_change"
def jobFailed : String := "failed"
def jobSkipped : String := "skipped"
def jobBlocked : String := "blocked"

/-! ## The queries -/

/-- `SELECT state, COUNT(*) ... GROUP BY state`, where no group counts as zero. -/
def counts (jobs : List JobRow) (migrationID state : String) : Nat :=
  jobs.countP fun j => j.migrationID = migrationID && j.state = state

def jobsIn (jobs : List JobRow) (migrationID state : String) : List JobRow :=
  jobs.filter fun j => j.migrationID = migrationID && j.state = state

/-- The path of the running job that was updated last. -/
def currentPath (sources : List SourceRow) (jobs : List JobRow) (migrationID : String) :
    Option String :=
  let latest := (jobsIn jobs migrationID jobRunning).insertionSort fun a b =>
    b.updatedAt ≤ a.updatedAt
  (latest.flatMap fun j =>
    (sources.filter fun s => s.id = j.sourceID).map fun s => s.relativePath).head?

/-- `SELECT updated_at ... ORDER BY updated_at ASC` -/
def succeededAt (jobs : List JobRow) (migrationID : String) : List String :=
  ((jobsIn jobs migrationID jobSucceeded).map fun j => j.updatedAt).insertionSort fun a b => a ≤ b

/-! ## The operator -/

section Operator

-- `time.Parse`: the seconds of a time, if the text is one
variable (parse : String → Option ℚ)

def totalDiff : List ℚ → ℚ
  | prev :: curr :: rest =>
      let diff := curr - prev
      -- disregard anomalies > 10m
      if 0 < diff ∧ diff < 600 then diff + totalDiff (curr :: rest) else totalDiff (curr :: rest)
  | _ => 0

def avgSec (timestamps : List ℚ) : Nat :=
  if 2 ≤ timestamps.length then
    if 0 < totalDiff timestamps then
      let avgSec := ⌊totalDiff timestamps / (timestamps.length - 1 : ℚ)⌋₊
      if avgSec < 30 then 30 else avgSec
    else 80
  else 80

def getMigrationProgress (sources : List SourceRow) (jobs : List JobRow) (migrationID : String) :
    MigrationProgress :=
  let counts := counts jobs migrationID
  let succeeded := counts jobSucceeded + counts jobNoChange
  let running := counts jobRunning
  let pending := counts jobPending
  let failed := counts jobFailed + counts jobBlocked + counts jobSkipped
  let completed := succeeded + failed
  let total := completed + running + pending
  let avgSec := avgSec ((succeededAt jobs migrationID).filterMap parse)
  let remainingCount := pending + running
  { total, completed, succeeded, running, pending, failed
    percent := if total > 0 then succeeded * 100 / total else 0
    currentFile := (currentPath sources jobs migrationID).filter (· ≠ "")
    avgDurationSec := avgSec
    etaSeconds :=
      if remainingCount > 0 ∧ running > 0 then some (remainingCount * avgSec) else none }

end Operator

/-! ## The Workspace UI -/

section WorkspaceUI

-- `new Date(text).getTime()` in seconds; none stands for `NaN`
variable (getTime : String → Option ℚ)

/-- The sum and the number of the valid intervals. -/
def validIntervals : List (Option ℚ) → ℚ × Nat
  | prev :: curr :: rest =>
      let (total, valid) := validIntervals (curr :: rest)
      match prev, curr with
      | some prev, some curr =>
          let diff := curr - prev
          if 0 < diff ∧ diff < 600 then (diff + total, valid + 1) else (total, valid)
      | _, _ => (total, valid)
  | _ => (0, 0)

def avgDurationSec (times : List (Option ℚ)) : Nat :=
  if 2 ≤ times.length then
    let (totalDiff, validIntervals) := validIntervals times
    if 0 < validIntervals then max 30 ⌊totalDiff / validIntervals⌋₊ else 80
  else 80

def computeMigrationProgress (sources : List SourceRow) (jobs : List JobRow)
    (migrationId : String) : MigrationProgress :=
  let counts := counts jobs migrationId
  let succeeded := counts "succeeded" + counts "no_change"
  let running := counts "running"
  let pending := counts "pending"
  let failed := counts "failed" + counts "blocked" + counts "skipped"
  let completed := succeeded + failed
  let total := completed + running + pending
  let avgDurationSec := avgDurationSec ((succeededAt jobs migrationId).map getTime)
  let remainingCount := pending + running
  { total, completed, succeeded, running, pending, failed
    percent := if total > 0 then succeeded * 100 / total else 0
    currentFile := (currentPath sources jobs migrationId).filter (· ≠ "")
    avgDurationSec
    etaSeconds :=
      if remainingCount > 0 ∧ running > 0 then some (remainingCount * avgDurationSec) else none }

end WorkspaceUI

/-! ## The mean time of a job -/

/-- The time between two rows that both hold one, if it counts. -/
def interval : Option ℚ → Option ℚ → Option ℚ
  | some prev, some curr =>
      if 0 < curr - prev ∧ curr - prev < 600 then some (curr - prev) else none
  | _, _ => none

theorem interval_some (prev curr : ℚ) : interval (some prev) (some curr) =
    if 0 < curr - prev ∧ curr - prev < 600 then some (curr - prev) else none := rfl

def intervals : List (Option ℚ) → List ℚ
  | prev :: curr :: rest => (interval prev curr).toList ++ intervals (curr :: rest)
  | _ => []

theorem totalDiff_eq (times : List ℚ) : totalDiff times = (intervals (times.map some)).sum := by
  induction times with
  | nil => rfl
  | cons prev rest ih =>
      cases rest with
      | nil => rfl
      | cons curr rest =>
          have hstep : intervals ((prev :: curr :: rest).map some) =
              (interval (some prev) (some curr)).toList ++
                intervals ((curr :: rest).map some) := rfl
          rw [totalDiff, ih, hstep, interval_some]
          by_cases h : 0 < curr - prev ∧ curr - prev < 600
          · rw [if_pos h, if_pos h, Option.toList_some, List.singleton_append, List.sum_cons]
          · rw [if_neg h, if_neg h, Option.toList_none, List.nil_append]

theorem validIntervals_eq (times : List (Option ℚ)) :
    validIntervals times = ((intervals times).sum, (intervals times).length) := by
  induction times with
  | nil => rfl
  | cons prev rest ih =>
      cases rest with
      | nil => rfl
      | cons curr rest =>
          rw [validIntervals, ih, intervals]
          match prev, curr with
          | none, _ => rfl
          | some prev, none => rfl
          | some prev, some curr =>
              rw [interval_some]
              by_cases h : 0 < curr - prev ∧ curr - prev < 600
              · rw [if_pos h, Option.toList_some, List.singleton_append, List.sum_cons,
                  List.length_cons]
                exact if_pos h
              · rw [if_neg h, Option.toList_none, List.nil_append]
                exact if_neg h

theorem intervals_pos {times : List (Option ℚ)} {x : ℚ} (hx : x ∈ intervals times) : 0 < x := by
  induction times with
  | nil => cases hx
  | cons prev rest ih =>
      cases rest with
      | nil => cases hx
      | cons curr rest =>
          rcases List.mem_append.mp hx with hx | hx
          · rw [Option.mem_toList] at hx
            unfold interval at hx
            split at hx
            · split at hx
              · rename_i hcounts
                cases hx
                exact hcounts.1
              · cases hx
            · cases hx
          · exact ih hx

theorem sum_pos_iff (times : List (Option ℚ)) :
    0 < (intervals times).sum ↔ intervals times ≠ [] := by
  have hall : ∀ x ∈ intervals times, 0 < x := fun x => intervals_pos
  cases h : intervals times with
  | nil => simp
  | cons x l =>
      rw [h] at hall
      have hx := hall x List.mem_cons_self
      have hl : 0 ≤ l.sum := List.sum_nonneg fun y hy => (hall y (List.mem_cons_of_mem x hy)).le
      rw [List.sum_cons]
      exact ⟨fun _ => List.cons_ne_nil x l, fun _ => by linarith⟩

theorem intervals_length (times : List (Option ℚ)) :
    (intervals times).length ≤ times.length - 1 := by
  induction times with
  | nil => simp [intervals]
  | cons prev rest ih =>
      cases rest with
      | nil => simp [intervals]
      | cons curr rest =>
          have hone : (interval prev curr).toList.length ≤ 1 := by
            cases interval prev curr <;> simp
          rw [intervals, List.length_append]
          simp only [List.length_cons] at ih ⊢
          omega

/-- The mean of a sum over a number of intervals, without the fraction and at least 30. -/
def mean (sum : ℚ) (n : Nat) : Nat := max 30 ⌊sum / n⌋₊

theorem avgSec_eq (times : List ℚ) :
    avgSec times = if intervals (times.map some) = [] then 80
      else mean (intervals (times.map some)).sum (times.length - 1) := by
  unfold avgSec
  rw [totalDiff_eq]
  by_cases h : intervals (times.map some) = []
  · rw [if_pos h, h]
    simp
  · have hlength := intervals_length (times.map some)
    have hpos := List.length_pos_iff.mpr h
    rw [List.length_map] at hlength
    have hcast : ((times.length - 1 : Nat) : ℚ) = (times.length : ℚ) - 1 := by
      rw [Nat.cast_sub (by omega), Nat.cast_one]
    rw [if_neg h, if_pos (by omega), if_pos ((sum_pos_iff _).mpr h), mean, hcast]
    simp only
    split <;> omega

theorem avgDurationSec_eq (times : List (Option ℚ)) :
    avgDurationSec times = if intervals times = [] then 80
      else mean (intervals times).sum (intervals times).length := by
  unfold avgDurationSec
  rw [validIntervals_eq]
  by_cases h : intervals times = []
  · rw [if_pos h, h]
    simp
  · have hlength := intervals_length times
    have hpos := List.length_pos_iff.mpr h
    rw [if_neg h, if_pos (by omega)]
    simp only
    rw [if_pos hpos, mean]

/-! ## What both sides report -/

/-- The means of the intervals that count, one side with its number of gaps. -/
def MeansAgree (counted : List ℚ) (gaps : Nat) (valid : List ℚ) : Prop :=
  if counted = [] then valid = [] ∨ ⌊valid.sum / valid.length⌋₊ = 80
  else if valid = [] then ⌊counted.sum / gaps⌋₊ = 80
  else ⌊counted.sum / gaps⌋₊ = ⌊valid.sum / valid.length⌋₊ ∨
    ⌊counted.sum / gaps⌋₊ ≤ 30 ∧ ⌊valid.sum / valid.length⌋₊ ≤ 30

/-- Texts that both sides read alike: either every interval counts, or the difference of the
divisors must not show. -/
theorem meansAgree_self {counted : List ℚ} {gaps : Nat} (hgaps : counted.length ≤ gaps)
    (hpos : counted ≠ [] → 0 < counted.sum) :
    MeansAgree counted gaps counted ↔ counted = [] ∨ counted.length = gaps ∨
      ⌊counted.sum / gaps⌋₊ = ⌊counted.sum / counted.length⌋₊ ∨
      ⌊counted.sum / counted.length⌋₊ ≤ 30 := by
  unfold MeansAgree
  by_cases h : counted = []
  · simp [h]
  · have hlength : (0 : ℚ) < counted.length := by
      exact_mod_cast List.length_pos_iff.mpr h
    have hle : ⌊counted.sum / gaps⌋₊ ≤ ⌊counted.sum / counted.length⌋₊ := by
      refine Nat.floor_le_floor (div_le_div_of_nonneg_left (hpos h).le hlength ?_)
      exact_mod_cast hgaps
    rw [if_neg h, if_neg h]
    refine ⟨fun hagree => ?_, fun hor => ?_⟩
    · rcases hagree with heq | ⟨-, hsmall⟩
      · exact Or.inr (Or.inr (Or.inl heq))
      · exact Or.inr (Or.inr (Or.inr hsmall))
    · rcases hor with hnil | heq | heq | hsmall
      · exact absurd hnil h
      · exact Or.inl (by rw [heq])
      · exact Or.inl heq
      · exact Or.inr ⟨hle.trans hsmall, hsmall⟩

section Reports

variable (parse getTime : String → Option ℚ) (sources : List SourceRow) (jobs : List JobRow)
  (migrationID : String)

theorem avg_eq_iff (times : List String) :
    avgSec (times.filterMap parse) = avgDurationSec (times.map getTime) ↔
      MeansAgree (intervals ((times.filterMap parse).map some))
        ((times.filterMap parse).length - 1) (intervals (times.map getTime)) := by
  rw [avgSec_eq, avgDurationSec_eq, MeansAgree]
  split
  · split
    · simp [*]
    · rw [mean]
      constructor
      · intro h
        exact Or.inr (by omega)
      · intro h
        have := h.resolve_left ‹_›
        omega
  · split
    · rw [mean]
      omega
    · rw [mean, mean]
      omega

/-- The jobs that are done, one way or the other. -/
def finished : List String := [jobSucceeded, jobNoChange, jobFailed, jobBlocked, jobSkipped]

/-- The reports are equal but for the mean itself. -/
structure Same (a b : MigrationProgress) : Prop where
  total : a.total = b.total
  completed : a.completed = b.completed
  succeeded : a.succeeded = b.succeeded
  running : a.running = b.running
  pending : a.pending = b.pending
  failed : a.failed = b.failed
  percent : a.percent = b.percent
  currentFile : a.currentFile = b.currentFile
  etaSeconds : a.etaSeconds = b.etaSeconds

/-- Both sides report the same, and 100 percent only when every job is finished. -/
structure Reported : Prop where
  same : Same (getMigrationProgress parse sources jobs migrationID)
    (computeMigrationProgress getTime sources jobs migrationID)
  percent : (getMigrationProgress parse sources jobs migrationID).percent ≤ 100
  finished : (getMigrationProgress parse sources jobs migrationID).percent = 100 →
    ∀ j ∈ jobs, j.migrationID = migrationID → j.state ∈ finished

theorem percent_le {succeeded total : Nat} (h : succeeded ≤ total) :
    (if total > 0 then succeeded * 100 / total else 0) ≤ 100 := by
  split
  · rename_i hpos
    exact Nat.div_le_of_le_mul (by nlinarith)
  · exact Nat.zero_le _

theorem percent_eq {succeeded total : Nat} (h : succeeded ≤ total) :
    (if total > 0 then succeeded * 100 / total else 0) = 100 ↔ 0 < total ∧ succeeded = total := by
  split
  · rename_i hpos
    refine ⟨fun heq => ⟨hpos, ?_⟩, fun ⟨_, heq⟩ => ?_⟩
    · have hmul := Nat.div_mul_le_self (succeeded * 100) total
      rw [heq] at hmul
      omega
    · rw [heq, Nat.mul_div_cancel_left 100 hpos]
  · rename_i hzero
    exact ⟨fun heq => by omega, fun ⟨hpos, _⟩ => absurd hpos hzero⟩

theorem counts_eq_zero {state : String} : counts jobs migrationID state = 0 ↔
    ∀ j ∈ jobs, j.migrationID = migrationID → j.state ≠ state := by
  rw [counts, List.countP_eq_zero]
  simp

theorem succeeded_le : (getMigrationProgress parse sources jobs migrationID).succeeded ≤
    (getMigrationProgress parse sources jobs migrationID).total := by
  simp only [getMigrationProgress]
  omega

/-- Beside jobs that have all succeeded there is none that neither side counts. -/
def NoneUncounted : Prop :=
  (∀ j ∈ jobs, j.migrationID = migrationID →
    j.state ∈ finished ∨ j.state = jobPending ∨ j.state = jobRunning) ∨
  counts jobs migrationID jobSucceeded + counts jobs migrationID jobNoChange = 0 ∨
  0 < counts jobs migrationID jobFailed + counts jobs migrationID jobBlocked +
    counts jobs migrationID jobSkipped + counts jobs migrationID jobRunning +
    counts jobs migrationID jobPending

theorem finished_iff :
    ((getMigrationProgress parse sources jobs migrationID).percent = 100 →
      ∀ j ∈ jobs, j.migrationID = migrationID → j.state ∈ finished) ↔
    NoneUncounted jobs migrationID := by
  have hhundred : (getMigrationProgress parse sources jobs migrationID).percent = 100 ↔ _ :=
    percent_eq (succeeded_le parse sources jobs migrationID)
  rw [hhundred]
  unfold NoneUncounted
  constructor
  · intro h
    by_cases hall : counts jobs migrationID jobSucceeded +
        counts jobs migrationID jobNoChange = 0
    · exact Or.inr (Or.inl hall)
    by_cases hother : 0 < counts jobs migrationID jobFailed + counts jobs migrationID jobBlocked +
        counts jobs migrationID jobSkipped + counts jobs migrationID jobRunning +
        counts jobs migrationID jobPending
    · exact Or.inr (Or.inr hother)
    · exact Or.inl fun j hj hm => Or.inl (h ⟨by omega, by omega⟩ j hj hm)
  · rintro hor ⟨hpos, hsum⟩ j hj hm
    have hrunning := (@counts_eq_zero jobs migrationID jobRunning).mp (by omega) j hj hm
    have hpending := (@counts_eq_zero jobs migrationID jobPending).mp (by omega) j hj hm
    rcases hor with hall | hzero | hother
    · exact (hall j hj hm).resolve_right (not_or.mpr ⟨hpending, hrunning⟩)
    · omega
    · omega

theorem eta_eq_iff (running remaining a b : Nat) (h : running ≤ remaining) :
    (if remaining > 0 ∧ running > 0 then some (remaining * a) else none) =
      (if remaining > 0 ∧ running > 0 then some (remaining * b) else none) ↔
    running = 0 ∨ a = b := by
  split
  · rename_i hpos
    rw [Option.some.injEq, Nat.mul_right_inj (by omega)]
    exact ⟨Or.inr, fun h => h.resolve_left (by omega)⟩
  · rename_i hnot
    exact ⟨fun _ => Or.inl (by omega), fun _ => rfl⟩

/-- The reports are those that are promised exactly when no job runs or the means agree, and
no uncounted job stands beside jobs that have all succeeded. -/
theorem reported_iff :
    Reported parse getTime sources jobs migrationID ↔
      (counts jobs migrationID jobRunning = 0 ∨
        MeansAgree
          (intervals (((succeededAt jobs migrationID).filterMap parse).map some))
          (((succeededAt jobs migrationID).filterMap parse).length - 1)
          (intervals ((succeededAt jobs migrationID).map getTime))) ∧
      NoneUncounted jobs migrationID := by
  rw [← finished_iff parse sources, ← avg_eq_iff]
  have heta := eta_eq_iff (counts jobs migrationID jobRunning)
    (counts jobs migrationID jobPending + counts jobs migrationID jobRunning)
    (avgSec ((succeededAt jobs migrationID).filterMap parse))
    (avgDurationSec ((succeededAt jobs migrationID).map getTime)) (by omega)
  constructor
  · intro h
    exact ⟨heta.mp h.same.etaSeconds, h.finished⟩
  · rintro ⟨hor, hfinished⟩
    refine ⟨⟨rfl, rfl, rfl, rfl, rfl, rfl, rfl, rfl, heta.mpr hor⟩, ?_, hfinished⟩
    exact percent_le (succeeded_le parse sources jobs migrationID)

end Reports

/-- What both sides read in the three times of the example. -/
def readTime (text : String) : Option ℚ :=
  if text = "2026-01-01T00:00:00Z" then some 1767225600
  else if text = "2026-01-01T00:01:40Z" then some 1767225700
  else if text = "2026-01-01T00:31:40Z" then some 1767227500
  else none

/-- Two intervals of which one is over ten minutes, and a job that runs. -/
def slowJobs : List JobRow :=
  [⟨"m", "a", "succeeded", "2026-01-01T00:00:00Z"⟩,
    ⟨"m", "b", "succeeded", "2026-01-01T00:01:40Z"⟩,
    ⟨"m", "c", "succeeded", "2026-01-01T00:31:40Z"⟩,
    ⟨"m", "d", "running", "2026-01-01T00:31:40Z"⟩]

/-- The operator expects 50 seconds, the Workspace UI 100. -/
theorem slowJobs_reported_apart :
    (getMigrationProgress readTime [⟨"d", "d.md"⟩] slowJobs "m").etaSeconds = some 50 ∧
    (computeMigrationProgress readTime [⟨"d", "d.md"⟩] slowJobs "m").etaSeconds = some 100 ∧
    ¬ Reported readTime readTime [⟨"d", "d.md"⟩] slowJobs "m" := by
  have hgo : (getMigrationProgress readTime [⟨"d", "d.md"⟩] slowJobs "m").etaSeconds = some 50 := by
    decide +kernel
  have hui : (computeMigrationProgress readTime [⟨"d", "d.md"⟩] slowJobs "m").etaSeconds =
      some 100 := by
    decide +kernel
  refine ⟨hgo, hui, fun h => ?_⟩
  have heta := h.same.etaSeconds
  rw [hgo, hui] at heta
  cases heta

end Openlia.Progress
