import Mathlib.Algebra.Group.Nat.Defs
import Mathlib.Logic.Function.Iterate
import Mathlib.Order.Defs.LinearOrder
import Openlia.Lib.Crash
import Openlia.Lib.Runs

/-! # The backup schedule

A tick looks for the latest slot that is due, records it, makes the backup and records the result.
Times are nanoseconds.
-/

namespace Openlia.Backup

open Lib Crash

abbrev Time := Nat

def second : Time := 10 ^ 9

def minute : Time := 60 * second

/-- `Truncate` -/
def truncate (unit t : Time) : Time := t - t % unit

/-- A parsed schedule of the cron library in a time zone. Its slots are at full minutes. (`@every` has
no slots of its own.) -/
structure CronSchedule where
  slot : Time → Prop
  next : Time → Time
  slot_next : ∀ t, slot (next t)
  lt_next : ∀ t, t < next t
  next_le : ∀ t s, slot s → t < s → next t ≤ s
  fullMinute : ∀ s, slot s → minute ∣ s

/-- A time that is no text of one is none. -/
structure BackupScheduleState where
  Schema : Nat
  InstalledAt : Option Time
  LastAttemptSlot : Option Time
  LastResult : String
  deriving DecidableEq

structure ScheduleConfig where
  BackupScheduleEnabled : Bool
  BackupRecipient : String

/-- The state file, where `some none` is no JSON of a state, and the slots for which a backup was
started. -/
structure Scheduler where
  file : Option (Option BackupScheduleState)
  attempts : List Time
  deriving DecidableEq

abbrev SchedulerAction := Prog Scheduler String

/-! ## A tick -/

/-- `utcTimestamp`, which has no fractions of a second. -/
def utcTimestamp (t : Time) : Time := truncate second t

def newState (now : Time) : BackupScheduleState := ⟨1, some (utcTimestamp now), none, ""⟩

def ensureBackupScheduleState (now : Time) (s : Scheduler) : Scheduler :=
  match s.file with
  | some _ => s
  | none => { s with file := some (some (newState now)) }

/-- The state of a tick; none when the file is invalid. -/
def readState (file : Option (Option BackupScheduleState)) (now : Time) :
    Option BackupScheduleState :=
  match file with
  | none => some (newState now)
  | some none => none
  | some (some state) => if state.Schema = 1 then some state else none

def BackupScheduleState.start (state : BackupScheduleState) (now : Time) : Time :=
  state.LastAttemptSlot.getD (state.InstalledAt.getD now)

/-- The loop over the slots; `due` is the last one that was found. -/
def dueSlot (next : Time → Time) (current : Time) : Nat → Time → Option Time → Option Time
  | 0, _, due => due
  | count + 1, start, due =>
      if current < next start then due
      else dueSlot next current count (next start) (some (next start))

def maxSlots : Nat := 100000

def setFile (state : BackupScheduleState) (s : Scheduler) : Scheduler :=
  { s with file := some (some state) }

def addAttempt (slot : Time) (s : Scheduler) : Scheduler :=
  { s with attempts := s.attempts ++ [slot] }

/-- `result` is what the backup comes to: `ok`, `partial` or `failed`. -/
def BackupScheduleTick (config : ScheduleConfig) (schedule : CronSchedule) (now : Time)
    (result : String) : SchedulerAction Bool :=
  if config.BackupScheduleEnabled = false then pure false
  else if config.BackupRecipient = "" then
    Prog.fail "backup encryption recipient is not configured"
  else do
    let s ← Prog.get
    match readState s.file now with
    | none => Prog.fail "backup schedule state is invalid"
    | some state =>
        match dueSlot schedule.next (truncate minute now) maxSlots (state.start now) none with
        | none => pure false
        | some due => do
            Prog.write (setFile { state with LastAttemptSlot := some due })
            Prog.write (addAttempt due)
            Prog.write (setFile { state with LastAttemptSlot := some due, LastResult := result })
            pure true

/-! ## The loop -/

section Loop

variable {schedule : CronSchedule} {current start : Time} {due : Option Time} {n : Nat}

theorem add_le_iterate_next (schedule : CronSchedule) (start : Time) (n : Nat) :
    start + n ≤ schedule.next^[n] start := by
  induction n with
  | zero => exact Nat.le_refl start
  | succ n ih =>
      rw [Function.iterate_succ_apply']
      exact Nat.lt_of_le_of_lt ih (schedule.lt_next _)

/-- No slot is due. -/
theorem dueSlot_of_lt (h : current < schedule.next start) :
    dueSlot schedule.next current n start due = due := by
  cases n with
  | zero => rfl
  | succ n => exact if_pos h

/-- The loop gives a slot behind the start that is due. -/
theorem dueSlot_mem {d : Time} (h : dueSlot schedule.next current n start none = some d) :
    schedule.slot d ∧ start < d ∧ d ≤ current := by
  have hgeneral : ∀ (n : Nat) (from_ : Time) (due : Option Time), start ≤ from_ →
      (∀ e ∈ due, schedule.slot e ∧ start < e ∧ e ≤ current) →
        dueSlot schedule.next current n from_ due = some d →
          schedule.slot d ∧ start < d ∧ d ≤ current := by
    intro n
    induction n with
    | zero => exact fun _ _ _ hdue hd => hdue d hd
    | succ n ih =>
        intro from_ due hfrom hdue hd
        unfold dueSlot at hd
        split at hd
        · exact hdue d hd
        · rename_i hle
          have hnext := Nat.lt_of_le_of_lt hfrom (schedule.lt_next from_)
          refine ih _ _ (Nat.le_of_lt hnext) (fun e he => ?_) hd
          cases he
          exact ⟨schedule.slot_next from_, hnext, Nat.le_of_not_lt hle⟩
  refine hgeneral n start none (Nat.le_refl _) ?_ h
  rintro e ⟨⟩

/-- With no more slots than the loop goes through, it gives the latest that is due. -/
theorem dueSlot_latest (hfew : current < schedule.next^[n + 1] start)
    (hdue : schedule.next start ≤ current) :
    ∃ d, dueSlot schedule.next current n start due = some d ∧ schedule.slot d ∧ d ≤ current ∧
      ∀ s, schedule.slot s → s ≤ current → s ≤ d := by
  induction n generalizing start due with
  | zero => exact absurd hfew (Nat.not_lt_of_le hdue)
  | succ n ih =>
      unfold dueSlot
      rw [if_neg (Nat.not_lt_of_le hdue)]
      rw [Function.iterate_succ_apply] at hfew
      by_cases hmore : schedule.next (schedule.next start) ≤ current
      · exact ih hfew hmore
      · have hlt := Nat.lt_of_not_le hmore
        refine ⟨_, dueSlot_of_lt hlt, schedule.slot_next start, hdue, fun s hs hle => ?_⟩
        by_contra hbehind
        exact absurd (Nat.le_trans (schedule.next_le _ s hs (Nat.lt_of_not_le hbehind)) hle) hmore

/-- With more slots than the loop goes through, it stops short of the latest. -/
theorem dueSlot_capped (hmany : schedule.next^[n + 1] start ≤ current) :
    dueSlot schedule.next current (n + 1) start due = some (schedule.next^[n + 1] start) := by
  induction n generalizing start due with
  | zero =>
      unfold dueSlot
      exact if_neg (Nat.not_lt_of_le hmany)
  | succ n ih =>
      rw [Function.iterate_succ_apply] at hmany ⊢
      unfold dueSlot
      have hnext := Nat.le_of_add_right_le (add_le_iterate_next schedule (schedule.next start) (n + 1))
      rw [if_neg (Nat.not_lt_of_le (Nat.le_trans hnext hmany))]
      exact ih hmany

end Loop

/-- A slot is due when its minute has come. -/
theorem CronSchedule.le_truncate (schedule : CronSchedule) {s now : Time} (hs : schedule.slot s) :
    s ≤ truncate minute now ↔ s ≤ now := by
  obtain ⟨k, rfl⟩ := schedule.fullMinute s hs
  change 60000000000 * k ≤ now - now % 60000000000 ↔ 60000000000 * k ≤ now
  omega

/-- The full second of the start makes no difference to the slots. -/
theorem CronSchedule.utcTimestamp_lt (schedule : CronSchedule) {s t : Time}
    (hs : schedule.slot s) : utcTimestamp t < s ↔ t < s := by
  obtain ⟨k, rfl⟩ := schedule.fullMinute s hs
  have h : ∀ n m : Nat, n - n % 1000000000 < 60000000000 * m ↔ n < 60000000000 * m := by
    intro n m
    omega
  exact h t k

/-! ## Runs -/

structure ScheduleSystem where
  clock : Time
  disk : Scheduler
  deriving DecidableEq

/-- A tick, with the result of its backup and the number of writes before it crashes. -/
structure Tick where
  now : Time
  result : String
  crash : Option Nat

section Runs

variable (config : ScheduleConfig) (schedule : CronSchedule)

/-- The clock never goes back. -/
def ScheduleSystem.step (s : ScheduleSystem) (a : Tick) : Option ScheduleSystem :=
  if s.clock ≤ a.now then
    ((BackupScheduleTick config schedule a.now a.result).halt s.disk a.crash).map fun disk =>
      ⟨a.now, disk⟩
  else none

end Runs

def Scheduler.lastSlot (s : Scheduler) : Option Time :=
  match s.file with
  | some (some state) => state.LastAttemptSlot
  | _ => none

/-- The schedule was enabled at `since`; the installer may have written the state. -/
def EnabledAt (since : Time) (s : ScheduleSystem) : Prop :=
  s.clock = since ∧ s.disk.attempts = [] ∧
    (s.disk.file = none ∨ s.disk.file = some (some (newState since)))

/-- A tick that gets to its end attempts the latest slot that is due, when there is one that was not
attempted. -/
def OnTime (schedule : CronSchedule) (since : Time) (x : Taken ScheduleSystem Tick) : Prop :=
  x.action.crash = none → ∀ s, schedule.slot s → since < s → s ≤ x.action.now →
    (∀ l ∈ x.before.disk.lastSlot, l < s) →
      ∃ d, schedule.slot d ∧ d ≤ x.action.now ∧
        (∀ s', schedule.slot s' → s' ≤ x.action.now → s' ≤ d) ∧
        x.after.disk.lastSlot = some d ∧
        x.after.disk.attempts = x.before.disk.attempts ++ [d]

/-- The condition of a tick: the state is there, and the loop can go through all slots behind the
last one. -/
def MeetsTick (schedule : CronSchedule) (since : Time) (x : Taken ScheduleSystem Tick) : Prop :=
  x.before.disk.file ≠ none ∧
    x.action.now < schedule.next^[maxSlots + 1] (x.before.disk.lastSlot.getD since)

/-! ## The invariant -/

/-- The state that the file holds, if it is there. -/
structure ScheduleInv (schedule : CronSchedule) (since : Time) (s : Scheduler) : Prop where
  file : s.file = none ∨ ∃ state, s.file = some (some state) ∧ state.Schema = 1 ∧
    state.InstalledAt = some (utcTimestamp since)
  /-- Each slot at most once. -/
  attempts : s.attempts.Pairwise (· < ·)
  recorded : ∀ a ∈ s.attempts, ∃ l, s.lastSlot = some l ∧ a ≤ l
  slot : ∀ l ∈ s.lastSlot, schedule.slot l

section Invariant

variable {config : ScheduleConfig} {schedule : CronSchedule} {since now due : Time}
  {disk : Scheduler} {result : String} {crash : Option Nat}

/-- What a tick that finds a slot may leave. -/
structure Attempting (disk : Scheduler) (due : Time) (state : BackupScheduleState)
    (s : Scheduler) : Prop where
  file : ∃ result, s.file = some (some { state with
    LastAttemptSlot := some due, LastResult := result })
  attempts : s.attempts = disk.attempts ∨ s.attempts = disk.attempts ++ [due]

/-- A tick crashes before its first write or finds a slot that it records. -/
theorem tick_halt {after : Scheduler}
    (h : (BackupScheduleTick config schedule now result).halt disk crash = some after) :
    after = disk ∨ ∃ state due, readState disk.file now = some state ∧
      dueSlot schedule.next (truncate minute now) maxSlots (state.start now) none = some due ∧
      Attempting disk due state after := by
  unfold BackupScheduleTick at h
  have hidle : ∀ {α : Type} {p : SchedulerAction α}, (p.run disk).trail = [] →
      (p.run disk).final = disk → p.halt disk crash = some after → after = disk := by
    intro α p htrail hfinal hhalt
    cases crash with
    | none => exact (Option.some.inj hhalt).symm.trans hfinal
    | some n =>
        rw [Prog.halt, htrail] at hhalt
        exact List.mem_singleton.mp (List.mem_of_getElem? hhalt)
  split at h
  · exact Or.inl (hidle rfl rfl h)
  · split at h
    · exact Or.inl (hidle rfl rfl h)
    · cases hread : readState disk.file now with
      | none =>
          refine Or.inl (hidle ?_ ?_ h)
          · rw [Prog.run_get_bind, hread]
            rfl
          · rw [Prog.run_get_bind, hread]
            rfl
      | some state =>
          cases hdue : dueSlot schedule.next (truncate minute now) maxSlots (state.start now)
              none with
          | none =>
              refine Or.inl (hidle ?_ ?_ h)
              · rw [Prog.run_get_bind, hread]
                dsimp only
                rw [hdue]
                rfl
              · rw [Prog.run_get_bind, hread]
                dsimp only
                rw [hdue]
                rfl
          | some due =>
              refine (Spec.halt (C := fun s => s = disk ∨ Attempting disk due state s) ?_
                (Or.inl rfl) (fun _ s hs => hs) h).imp_right fun ha => ⟨state, due, rfl, hdue, ha⟩
              refine Spec.get_bind ?_
              rintro before rfl
              rw [hread]
              dsimp only
              rw [hdue]
              dsimp only
              refine Spec.seq (I := fun s => Attempting before due state s ∧
                s.attempts = before.attempts) (Spec.write ?_ ?_) (Spec.seq (I := fun s =>
                  Attempting before due state s ∧ s.attempts = before.attempts ++ [due])
                  (Spec.write ?_ ?_) (Spec.seq (I := fun s => Attempting before due state s)
                    (Spec.write ?_ ?_) (Spec.pure fun _ hs => Or.inr hs)))
              · rintro s rfl
                exact Or.inr ⟨⟨_, rfl⟩, Or.inl rfl⟩
              · rintro s rfl
                exact ⟨rfl, ⟨⟨_, rfl⟩, Or.inl rfl⟩, rfl⟩
              · rintro s ⟨hs, ha⟩
                exact Or.inr ⟨hs.file, Or.inr (congrArg (· ++ [due]) ha)⟩
              · rintro s ⟨hs, ha⟩
                exact ⟨rfl, ⟨hs.file, Or.inr (congrArg (· ++ [due]) ha)⟩,
                  congrArg (· ++ [due]) ha⟩
              · rintro s ⟨hs, ha⟩
                exact Or.inr ⟨⟨_, rfl⟩, Or.inr ha⟩
              · rintro s ⟨hs, ha⟩
                exact ⟨rfl, ⟨_, rfl⟩, Or.inr ha⟩

/-- Without the file no slot is ever due. -/
theorem dueSlot_newState :
    dueSlot schedule.next (truncate minute now) maxSlots ((newState now).start now) none = none := by
  cases hdue : dueSlot schedule.next (truncate minute now) maxSlots ((newState now).start now)
      none with
  | none => rfl
  | some d =>
      obtain ⟨hslot, hlt, hle⟩ := dueSlot_mem hdue
      have hbehind := (schedule.utcTimestamp_lt hslot).mp hlt
      exact absurd hbehind (Nat.not_lt_of_le ((schedule.le_truncate hslot).mp hle))

theorem readState_of_file {state : BackupScheduleState} (hfile : disk.file = some (some state))
    (hschema : state.Schema = 1) : readState disk.file now = some state := by
  rw [hfile]
  exact if_pos hschema

/-- A tick records nothing or a slot behind the last one. -/
theorem ScheduleInv.tick {after : Scheduler} (hinv : ScheduleInv schedule since disk)
    (h : (BackupScheduleTick config schedule now result).halt disk crash = some after) :
    after = disk ∨ ∃ state due, disk.file = some (some state) ∧ state.Schema = 1 ∧
      state.InstalledAt = some (utcTimestamp since) ∧ schedule.slot due ∧
      (∀ l ∈ disk.lastSlot, l < due) ∧ Attempting disk due state after := by
  obtain hsame | ⟨state, due, hread, hdue, hattempt⟩ := tick_halt h
  · exact Or.inl hsame
  · obtain hnone | ⟨saved, hfile, hschema, hinstalled⟩ := hinv.file
    · rw [hnone] at hread
      cases hread
      rw [dueSlot_newState] at hdue
      cases hdue
    · obtain rfl : saved = state :=
        Option.some.inj ((readState_of_file hfile hschema).symm.trans hread)
      obtain ⟨hslot, hlt, -⟩ := dueSlot_mem hdue
      refine Or.inr ⟨saved, due, hfile, hschema, hinstalled, hslot, fun l hl => ?_, hattempt⟩
      have hlast : saved.LastAttemptSlot = some l := by
        rw [Scheduler.lastSlot, hfile] at hl
        exact hl
      rw [BackupScheduleState.start, hlast] at hlt
      exact hlt

theorem Attempting.lastSlot {state : BackupScheduleState} {after : Scheduler}
    (h : Attempting disk due state after) : after.lastSlot = some due := by
  obtain ⟨result, hfile⟩ := h.file
  rw [Scheduler.lastSlot, hfile]

/-- A tick keeps the invariant, crashed or not. -/
theorem ScheduleInv.halt {after : Scheduler} (hinv : ScheduleInv schedule since disk)
    (h : (BackupScheduleTick config schedule now result).halt disk crash = some after) :
    ScheduleInv schedule since after := by
  obtain rfl | ⟨state, due, -, hschema, hinstalled, hslot, hbehind, ha⟩ := hinv.tick h
  · exact hinv
  · have hlast := ha.lastSlot
    have hold : ∀ a ∈ disk.attempts, a < due := by
      intro a hmem
      obtain ⟨l, hl, hle⟩ := hinv.recorded a hmem
      exact Nat.lt_of_le_of_lt hle (hbehind l hl)
    have hall : ∀ a ∈ after.attempts, a ≤ due := by
      intro a hmem
      rcases ha.attempts with hsame | hnew
      · exact Nat.le_of_lt (hold a (hsame ▸ hmem))
      · rw [hnew] at hmem
        rcases List.mem_append.mp hmem with hmem | hmem
        · exact Nat.le_of_lt (hold a hmem)
        · exact Nat.le_of_eq (List.mem_singleton.mp hmem)
    refine ⟨?_, ?_, fun a hmem => ⟨due, hlast, hall a hmem⟩, fun l hl => ?_⟩
    · obtain ⟨result, hfile⟩ := ha.file
      exact Or.inr ⟨_, hfile, hschema, hinstalled⟩
    · rcases ha.attempts with hsame | hnew
      · rw [hsame]
        exact hinv.attempts
      · rw [hnew, List.pairwise_append]
        refine ⟨hinv.attempts, List.pairwise_singleton _ _, fun a hmem b hb => ?_⟩
        obtain rfl := List.mem_singleton.mp hb
        exact hold a hmem
    · obtain rfl : due = l := Option.some.inj (hlast.symm.trans hl)
      exact hslot

/-- The last slot never goes back. -/
theorem ScheduleInv.lastSlot_le {after : Scheduler} (hinv : ScheduleInv schedule since disk)
    (h : (BackupScheduleTick config schedule now result).halt disk crash = some after)
    {l : Time} (hl : disk.lastSlot = some l) : ∃ l', after.lastSlot = some l' ∧ l ≤ l' := by
  obtain rfl | ⟨state, due, -, -, -, -, hbehind, ha⟩ := hinv.tick h
  · exact ⟨l, hl, Nat.le_refl l⟩
  · exact ⟨due, ha.lastSlot, Nat.le_of_lt (hbehind l hl)⟩

theorem EnabledAt.inv {s : ScheduleSystem} (h : EnabledAt since s) :
    ScheduleInv schedule since s.disk := by
  obtain ⟨-, hattempts, hfile⟩ := h
  refine ⟨hfile.imp_right fun hf => ⟨_, hf, rfl, rfl⟩, ?_, ?_, ?_⟩
  · rw [hattempts]
    exact List.Pairwise.nil
  · rw [hattempts]
    rintro a ⟨⟩
  · intro l hl
    rw [Scheduler.lastSlot] at hl
    obtain hf | hf := hfile
    · rw [hf] at hl
      cases hl
    · rw [hf] at hl
      cases hl

/-- What the installer leaves. -/
theorem ensureBackupScheduleState_enabledAt :
    EnabledAt since ⟨since, ensureBackupScheduleState since ⟨none, []⟩⟩ :=
  ⟨rfl, rfl, Or.inr rfl⟩

/-! ## A tick in time -/

/-- The slots behind the installation are the slots behind its full second. -/
theorem CronSchedule.next_utcTimestamp (schedule : CronSchedule) (t : Time) :
    schedule.next (utcTimestamp t) = schedule.next t := by
  apply Nat.le_antisymm
  · refine schedule.next_le _ _ (schedule.slot_next t) ?_
    exact (schedule.utcTimestamp_lt (schedule.slot_next t)).mpr (schedule.lt_next t)
  · refine schedule.next_le _ _ (schedule.slot_next _) ?_
    exact (schedule.utcTimestamp_lt (schedule.slot_next _)).mp (schedule.lt_next _)

theorem truncate_le (unit t : Time) : truncate unit t ≤ t := Nat.sub_le _ _

/-- The run of a tick that finds a slot. -/
theorem tick_run {state : BackupScheduleState} (henabled : config.BackupScheduleEnabled = true)
    (hrecipient : config.BackupRecipient ≠ "") (hread : readState disk.file now = some state)
    (hdue : dueSlot schedule.next (truncate minute now) maxSlots (state.start now) none =
      some due) :
    ((BackupScheduleTick config schedule now result).run disk).final =
      ⟨some (some { state with LastAttemptSlot := some due, LastResult := result }),
        disk.attempts ++ [due]⟩ := by
  unfold BackupScheduleTick
  rw [if_neg (by rw [henabled]; decide), if_neg hrecipient, Prog.run_get_bind, hread]
  dsimp only
  rw [hdue]
  rfl

/-- A tick that meets the condition is on time. -/
theorem ScheduleInv.onTime {x : Taken ScheduleSystem Tick}
    (hinv : ScheduleInv schedule since x.before.disk)
    (henabled : config.BackupScheduleEnabled = true) (hrecipient : config.BackupRecipient ≠ "")
    (hstep : x.before.step config schedule x.action = some x.after)
    (hmeets : MeetsTick schedule since x) : OnTime schedule since x := by
  intro hcrash s hs hsince hle hbehind
  obtain ⟨hfile, hfew⟩ := hmeets
  obtain hnone | ⟨state, hstate, hschema, hinstalled⟩ := hinv.file
  · exact absurd hnone hfile
  · -- the start of the loop is behind the slot, and the loop gets to the end of the gap
    have hlast : x.before.disk.lastSlot = state.LastAttemptSlot := by
      rw [Scheduler.lastSlot, hstate]
    have hstart : state.start x.action.now < s ∧
        x.action.now < schedule.next^[maxSlots + 1] (state.start x.action.now) := by
      rw [hlast] at hbehind hfew
      rw [BackupScheduleState.start, hinstalled]
      cases hl : state.LastAttemptSlot with
      | none =>
          rw [hl] at hfew
          refine ⟨(schedule.utcTimestamp_lt hs).mpr hsince, ?_⟩
          rw [Function.iterate_succ_apply] at hfew ⊢
          rw [Option.getD_none, Option.getD_some, schedule.next_utcTimestamp]
          exact hfew
      | some l =>
          rw [hl] at hfew
          exact ⟨hbehind l hl, hfew⟩
    obtain ⟨d, hd, hslot, hdle, hlatest⟩ := @dueSlot_latest schedule _ _ none _
      (Nat.lt_of_le_of_lt (truncate_le minute x.action.now) hstart.2)
      (Nat.le_trans (schedule.next_le _ s hs hstart.1) ((schedule.le_truncate hs).mpr hle))
    have hrun : some x.after.disk = some ((BackupScheduleTick config schedule x.action.now
        x.action.result).run x.before.disk).final := by
      rw [ScheduleSystem.step] at hstep
      split at hstep
      · obtain ⟨disk, hhalt, hafter⟩ := Option.map_eq_some_iff.mp hstep
        rw [← hafter, ← hhalt, hcrash]
        rfl
      · cases hstep
    rw [tick_run henabled hrecipient (readState_of_file hstate hschema) hd] at hrun
    have hafter := Option.some.inj hrun
    refine ⟨d, hslot, (schedule.le_truncate hslot).mp hdle, fun s' hs' hle' => ?_, ?_, ?_⟩
    · exact hlatest s' hs' ((schedule.le_truncate hs').mpr hle')
    · rw [hafter]
      rfl
    · rw [hafter]

end Invariant

/-! ## Every run -/

section Main

variable {config : ScheduleConfig} {schedule : CronSchedule} {since : Time}
  {start s : ScheduleSystem} {taken : List (Taken ScheduleSystem Tick)}

theorem ScheduleSystem.step_halt {a : Tick} {t : ScheduleSystem}
    (h : s.step config schedule a = some t) :
    (BackupScheduleTick config schedule a.now a.result).halt s.disk a.crash = some t.disk := by
  rw [ScheduleSystem.step] at h
  split at h
  · obtain ⟨disk, hhalt, rfl⟩ := Option.map_eq_some_iff.mp h
    exact hhalt
  · cases h

/-- Every slot is attempted at most once and the last slot never goes back, in every run. A tick is
on time when the state file exists and no more than `maxSlots` slots lie behind the last one. -/
theorem schedule_attempts (hstart : EnabledAt since start)
    (henabled : config.BackupScheduleEnabled = true) (hrecipient : config.BackupRecipient ≠ "")
    (hrun : Run (fun s a t => s.step config schedule a = some t) start taken s) :
    s.disk.attempts.Pairwise (· < ·) ∧
      ∀ x ∈ taken, x.after.disk.attempts.Nodup ∧
        (∀ l, x.before.disk.lastSlot = some l → ∃ l', x.after.disk.lastSlot = some l' ∧ l ≤ l') ∧
        (MeetsTick schedule since x → OnTime schedule since x) := by
  obtain ⟨hlast, hall⟩ := hrun.invariant (I := fun s => ScheduleInv schedule since s.disk)
    hstart.inv fun s a t hs hstep => hs.halt (ScheduleSystem.step_halt hstep)
  refine ⟨hlast.attempts, fun x hx => ⟨?_, ?_, ?_⟩⟩
  · exact (hall x hx).2.attempts.imp fun hlt => Nat.ne_of_lt hlt
  · intro l hl
    exact (hall x hx).1.lastSlot_le (ScheduleSystem.step_halt (hrun.allowed x hx)) hl
  · exact (hall x hx).1.onTime henabled hrecipient (hrun.allowed x hx)

/-- Every minute. -/
def everyMinute : CronSchedule where
  slot t := minute ∣ t
  next t := minute * (t / minute + 1)
  slot_next t := Nat.dvd_mul_right _ _
  lt_next t := Nat.lt_mul_div_succ t (by decide)
  next_le t s := by
    rintro ⟨k, rfl⟩ hlt
    exact Nat.mul_le_mul_left _ (Nat.div_lt_of_lt_mul hlt)
  fullMinute s hs := hs

/-- The installer wrote the state one nanosecond before the first slot. -/
theorem schedule_attempts_installed :
    ∃ taken s, Run (fun s a t => s.step ⟨true, "age1"⟩ everyMinute a = some t)
      ⟨minute - 1, ensureBackupScheduleState (minute - 1) ⟨none, []⟩⟩ taken s ∧
      s.disk.attempts.Pairwise (· < ·) ∧
      ∃ x ∈ taken, x.after.disk.attempts.Nodup ∧ MeetsTick everyMinute (minute - 1) x ∧
        OnTime everyMinute (minute - 1) x := by
  obtain ⟨taken, s, hrun, hone⟩ := exists_run_of_trace
    (ScheduleSystem.step ⟨true, "age1"⟩ everyMinute)
    ⟨minute - 1, ensureBackupScheduleState (minute - 1) ⟨none, []⟩⟩ [⟨minute, "ok", none⟩]
    (fun r => r.1.any fun x => x.before.disk.file.isSome && x.before.disk.lastSlot.isNone &&
      x.action.now == minute) (by decide +kernel)
  obtain ⟨x, hx, hfirst⟩ := List.any_eq_true.mp hone
  obtain ⟨hpairwise, hall⟩ := schedule_attempts ensureBackupScheduleState_enabledAt rfl
    (by decide) hrun
  obtain ⟨hnodup, -, htime⟩ := hall x hx
  simp only [Bool.and_eq_true, beq_iff_eq, Option.isNone_iff_eq_none] at hfirst
  obtain ⟨⟨hfile, hlast⟩, hnow⟩ := hfirst
  have hmeets : MeetsTick everyMinute (minute - 1) x := by
    refine ⟨Option.isSome_iff_ne_none.mp hfile, ?_⟩
    rw [hlast, hnow]
    refine Nat.lt_of_lt_of_le ?_ (add_le_iterate_next everyMinute (minute - 1) (maxSlots + 1))
    decide
  exact ⟨taken, s, hrun, hpairwise, x, hx, hnodup, hmeets, htime hmeets⟩

/-- Without the file no tick ever records a slot. -/
theorem idle_without_file (hstart : EnabledAt since start) (hfile : start.disk.file = none)
    (hrun : Run (fun s a t => s.step config schedule a = some t) start taken s) :
    s.disk = start.disk ∧ ∀ x ∈ taken, x.after.disk = start.disk := by
  obtain ⟨hlast, hall⟩ := hrun.invariant (I := fun s => s.disk = start.disk) rfl
    fun s a t hs hstep => by
      have hinv : ScheduleInv schedule since s.disk := hs ▸ hstart.inv
      obtain hsame | ⟨state, due, hstate, -⟩ := hinv.tick (ScheduleSystem.step_halt hstep)
      · exact hsame.trans hs
      · rw [hs, hfile] at hstate
        cases hstate
  exact ⟨hlast, fun x hx => (hall x hx).2⟩

/-- After a schedule of every minute was enabled without a state, the tick two minutes later does
nothing. -/
theorem first_slot_missed :
    ∃ taken s, EnabledAt 0 ⟨0, ⟨none, []⟩⟩ ∧
      Run (fun s a t => s.step ⟨true, "age1"⟩ everyMinute a = some t) ⟨0, ⟨none, []⟩⟩ taken s ∧
      ∃ x ∈ taken, ¬ OnTime everyMinute 0 x := by
  have hstart : EnabledAt 0 ⟨0, ⟨none, []⟩⟩ := ⟨rfl, rfl, Or.inl rfl⟩
  obtain ⟨taken, s, hrun, hone⟩ := exists_run_of_trace
    (ScheduleSystem.step ⟨true, "age1"⟩ everyMinute) ⟨0, ⟨none, []⟩⟩ [⟨2 * minute, "ok", none⟩]
    (fun r => r.1.any fun x => x.action.crash.isNone && x.before.disk == ⟨none, []⟩ &&
      x.action.now == 2 * minute) (by decide +kernel)
  obtain ⟨x, hx, htick⟩ := List.any_eq_true.mp hone
  simp only [Bool.and_eq_true, beq_iff_eq, Option.isNone_iff_eq_none] at htick
  obtain ⟨⟨hcrash, hbefore⟩, hnow⟩ := htick
  refine ⟨taken, s, hstart, hrun, x, hx, fun htime => ?_⟩
  obtain ⟨d, -, -, -, hlast, -⟩ := htime hcrash minute (Nat.dvd_refl minute) (by decide)
    (by rw [hnow]; decide) (by rw [hbefore]; rintro l ⟨⟩)
  rw [(idle_without_file hstart rfl hrun).2 x hx] at hlast
  cases hlast

/-- Behind a gap of more than `maxSlots` slots a tick stops short of the latest. -/
theorem not_onTime_of_many {x : Taken ScheduleSystem Tick} {l : Time}
    (hinv : ScheduleInv schedule since x.before.disk) (hl : x.before.disk.lastSlot = some l)
    (hsince : since ≤ l) (hcrash : x.action.crash = none)
    (hstep : x.before.step config schedule x.action = some x.after)
    (hmany : schedule.next^[maxSlots + 1] l ≤ x.action.now) : ¬ OnTime schedule since x := by
  intro htime
  have hfew : schedule.next^[maxSlots] l ≤ truncate minute x.action.now := by
    rw [Function.iterate_succ_apply'] at hmany
    change schedule.next^[99999 + 1] l ≤ _
    rw [Function.iterate_succ_apply']
    refine (schedule.le_truncate (schedule.slot_next _)).mpr (Nat.le_trans ?_ hmany)
    rw [← Function.iterate_succ_apply' schedule.next]
    exact Nat.le_of_lt (schedule.lt_next _)
  have hslot : schedule.slot (schedule.next^[maxSlots + 1] l) := by
    rw [Function.iterate_succ_apply']
    exact schedule.slot_next _
  have hlt : l < schedule.next^[maxSlots + 1] l :=
    Nat.lt_of_lt_of_le (Nat.lt_add_of_pos_right (Nat.succ_pos maxSlots))
      (add_le_iterate_next schedule l (maxSlots + 1))
  obtain ⟨d, -, -, hlatest, hlast, -⟩ := htime hcrash _ hslot (Nat.lt_of_le_of_lt hsince hlt) hmany
    fun l' hl' => Option.some.inj (hl.symm.trans hl') ▸ hlt
  have hd := hlatest _ hslot hmany
  obtain hsame | ⟨state, due, hread, hdue, hattempt⟩ := tick_halt (ScheduleSystem.step_halt hstep)
  · rw [hsame, hl] at hlast
    obtain rfl := Option.some.inj hlast
    exact absurd hlt (Nat.not_lt_of_le hd)
  · -- the loop ends with its last slot
    have hstart : state.start x.action.now = l := by
      obtain hnone | ⟨saved, hfile, hschema, -⟩ := hinv.file
      · rw [Scheduler.lastSlot, hnone] at hl
        cases hl
      · obtain rfl := Option.some.inj ((readState_of_file hfile hschema).symm.trans hread)
        rw [Scheduler.lastSlot, hfile] at hl
        rw [BackupScheduleState.start, show saved.LastAttemptSlot = some l from hl]
        rfl
    rw [hstart] at hdue
    have hcapped : dueSlot schedule.next (truncate minute x.action.now) maxSlots l none =
        some (schedule.next^[maxSlots] l) := dueSlot_capped hfew
    obtain rfl := Option.some.inj (hcapped.symm.trans hdue)
    obtain rfl := Option.some.inj (hattempt.lastSlot.symm.trans hlast)
    rw [Function.iterate_succ_apply'] at hd
    exact absurd (schedule.lt_next _) (Nat.not_lt_of_le hd)

end Main

end Openlia.Backup
