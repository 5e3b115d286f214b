import Mathlib.Algebra.Order.Ring.Int
import Openlia.Usage.Counting

/-! # Usage is counted once

A tick imports report files one by one, each with its own commit, and then the
rows of Hermes, whose statements are committed together also after an exception.
What a crash rolls back has not happened; a report file that was not removed is
imported again.
-/

namespace Openlia.Usage

open Lib

set_option linter.unusedSectionVars false

variable {C D : Type} [LinearOrder C] [AddCommGroup C] [IsOrderedAddMonoid C] [DecidableEq D]

/-- A report file and the row it is about, which the file does not name. -/
structure Spooled (C D : Type) where
  row : RowKey
  report : UsageReport C D

def UsageRow.reading (row : UsageRow C) : Reading C where
  row := row.key
  tokens := counters row.tokens
  cost := if row.accepted then some row.cost else none
  provider_cost := row.actual_cost_usd

def Spooled.reading (r : Spooled C D) : Reading C where
  row := r.row
  tokens := counters r.report.tokens
  cost := r.report.fallback_cost
  provider_cost := r.report.provider_cost

structure UsageState (C D : Type) where
  db : UsageDb C D
  spool : List (Spooled C D)
  readings : List (Reading C)

inductive UsageAction (C : Type) where
  | exported (path reference : String) (timestamp : Nat) (row : UsageRow C)
  | imported (i : Nat) (unlinked : Bool)
  | collected (now : Nat) (rows : List (UsageRow C)) (failure : Option (Failure C))
  | crashed

/-- The rows whose event statements were reached. -/
def reached (rows : List (UsageRow C)) : Option (Failure C) → List (UsageRow C)
  | none | some (.event _) => rows
  | some (.checkpoint row) => rows ++ [row]

namespace UsageState

/-- A database that was never used. -/
def initial (started : Nat) : UsageState C D := ⟨⟨started, none, fun _ => none, []⟩, [], []⟩

def step (env : UsageEnv C D) (s : UsageState C D) : UsageAction C → Option (UsageState C D)
  | .exported path reference timestamp row =>
      match recordSharedRuntimeUsage env path reference timestamp row with
      | none => some s
      | some report => some { s with spool := s.spool ++ [⟨row.key, report⟩] }
  | .imported i unlinked =>
      match s.spool[i]? with
      | none => none
      | some r =>
          match r.report.importReport env s.db with
          | none => some s
          | some db =>
              some ⟨db, if unlinked then s.spool.eraseIdx i else s.spool,
                s.readings ++ [r.reading]⟩
  | .collected now rows failure =>
      some { s with
        db := import_hermes env now s.db rows failure
        readings := s.readings ++ (reached rows failure).map (·.reading) }
  | .crashed => some s

def next (env : UsageEnv C D) (s : UsageState C D) (a : UsageAction C) (t : UsageState C D) :
    Prop :=
  s.step env a = some t

end UsageState

/-- An event of the row, from either importer. -/
def UsageEvent.Of (env : UsageEnv C D) (v : RowKey) (e : UsageEvent C D) : Prop :=
  e.id.checkpoint = some (.digest (env.source_key v)) ∨
    e.id.checkpoint = some (.digest (env.source_checkpoint v))

instance (env : UsageEnv C D) (v : RowKey) : DecidablePred (UsageEvent.Of (C := C) env v) :=
  fun _ => inferInstanceAs (Decidable (_ ∨ _))

/-- The events of a row add up to the highest counters and costs that were read. -/
structure RowCounted (env : UsageEnv C D) (s : UsageState C D) (v : RowKey) : Prop where
  tokens : ∀ k, ((s.db.events.filter fun e => e.Of env v).map (·.count k)).sum =
    peak ((readingsOf s.readings v).map (·.tokens k))
  cost : ((s.db.events.filter fun e => e.Of env v).map (·.fallback)).sum =
    peak ((readingsOf s.readings v).filterMap (·.cost))
  provider : ((s.db.events.filter fun e => e.Of env v).map (·.provided)).sum =
    peak ((readingsOf s.readings v).filterMap (·.provider_cost))

def CountedOnce (env : UsageEnv C D) (s : UsageState C D) : Prop := ∀ v, RowCounted env s v

abbrev UsageStep (C D : Type) := Taken (UsageState C D) (UsageAction C)

/-- The cost of a row counts, or is not above its mark. -/
def CostKnown (env : UsageEnv C D) (db : UsageDb C D) (row : UsageRow C) : Prop :=
  row.accepted = true ∨ row.cost ≤ (db.marks (env.rowId row.key)).cost

/-- The row whose checkpoint failed after its event. -/
def Failure.unmarked : Failure C → Option (UsageRow C)
  | .event _ => none
  | .checkpoint row => some row

/-- No row with a cost above its mark has a status that is not accepted, no
checkpoint fails after its event, and no report is imported of a row with a
separator in a string. -/
def UsageState.Countable (env : UsageEnv C D) (s : UsageState C D) : UsageAction C → Prop
  | .collected now rows failure =>
      (∀ row ∈ reached rows failure, CostKnown env s.db row) ∧
        ∀ row ∈ failure.bind Failure.unmarked, ¬ row.Grown env (importRows env now s.db rows)
  | .imported i _ => ∀ r ∈ s.spool[i]?, ¬ r.row.Separated
  | .exported .. | .crashed => True

def Countable (env : UsageEnv C D) (x : UsageStep C D) : Prop := x.before.Countable env x.action

instance (env : UsageEnv C D) (db : UsageDb C D) (row : UsageRow C) :
    Decidable (CostKnown env db row) :=
  inferInstanceAs (Decidable (_ ∨ _))

instance (env : UsageEnv C D) (s : UsageState C D) : DecidablePred (s.Countable env)
  | .collected _ rows failure => inferInstanceAs (Decidable
      ((∀ row ∈ reached rows failure, CostKnown env s.db row) ∧
        ∀ row ∈ failure.bind Failure.unmarked, _))
  | .imported i _ => inferInstanceAs (Decidable (∀ r ∈ s.spool[i]?, ¬ r.row.Separated))
  | .exported .. | .crashed => inferInstanceAs (Decidable True)

instance (env : UsageEnv C D) : DecidablePred (Countable (C := C) env) := fun x =>
  inferInstanceAs (Decidable (x.before.Countable env x.action))

/-! ## Rows -/

section Rows

variable {env : UsageEnv C D} {db : UsageDb C D} {readings : List (Reading C)} {row : UsageRow C}

theorem DbInv.nonneg (h : DbInv env db readings) (v : RowKey) :
    0 ≤ (db.marks (env.rowId v)).cost ∧ 0 ≤ (db.marks (env.rowId v)).provider_cost :=
  ⟨(h.metered v).cost.nonneg, (h.metered v).provider.nonneg⟩

theorem DbInv.previous_eq (h : DbInv env db readings) (row : UsageRow C) :
    row.previous env db = db.marks (env.rowId row.key) := by
  have hlegacy : db.checkpoints (.digest (env.legacy_key row)) = none := by
    cases hm : db.checkpoints (.digest (env.legacy_key row)) with
    | none => rfl
    | some m =>
        obtain ⟨v, hv⟩ := h.rows _ m hm
        exact absurd (CheckpointId.digest.inj hv) (legacy_key_ne row v)
  rw [UsageRow.previous, UsageRow.old, hlegacy, Option.or_none]
  rfl

theorem DbInv.not_baselined (h : DbInv env db readings) (row : UsageRow C) :
    row.baselined env db = false := by
  simp [UsageRow.baselined, h.fresh]

theorem DbInv.high_eq (h : DbInv env db readings) (hcost : CostKnown env db row) :
    row.high env db = (db.marks (env.rowId row.key)).raise row.reading := by
  obtain ⟨-, hprovider⟩ := h.nonneg row.key
  rw [UsageRow.high, h.previous_eq, Marks.raise]
  congr 1
  · unfold UsageRow.reading
    split
    · exact max_comm _ _
    · rename_i hacc
      exact max_eq_right (hcost.resolve_left hacc)
  · cases ha : row.actual_cost_usd with
    | none => simpa [UsageRow.reading, ha] using hprovider
    | some a => simp [UsageRow.reading, ha, max_comm]

theorem DbInv.grown_iff (h : DbInv env db readings) (hcost : CostKnown env db row) :
    row.Grown env db ↔ ¬ (db.marks (env.rowId row.key)).Covers row.reading := by
  have hhigh := congrArg Marks.provider_cost (h.high_eq hcost)
  rw [UsageRow.Grown, h.previous_eq, hhigh]
  constructor
  · rintro (⟨k, hk⟩ | hk | hk) hcovers
    · exact absurd (hcovers.1 k) (not_le_of_gt hk)
    · rcases hcost with hacc | hle
      · exact absurd (hcovers.2.1 row.cost (by simp [UsageRow.reading, hacc])) (not_le_of_gt hk)
      · exact absurd hle (not_le_of_gt hk)
    · rw [Marks.raise_eq hcovers] at hk
      exact lt_irrefl _ hk
  · intro hnot
    by_contra hgrown
    simp only [not_or, not_exists, not_lt] at hgrown
    obtain ⟨htokens, hfallback, hprovider⟩ := hgrown
    refine hnot ⟨htokens, fun c hc => ?_, fun c hc => ?_⟩
    · by_cases hacc : row.accepted = true
      · obtain rfl : row.cost = c := by simpa [UsageRow.reading, hacc] using hc
        exact hfallback
      · simp [UsageRow.reading, hacc] at hc
    · simp only [Marks.raise, Option.mem_def.mp hc, Option.elim_some] at hprovider
      exact (le_max_right _ _).trans hprovider

theorem DbInv.event_records (h : DbInv env db readings) (hcost : CostKnown env db row)
    (now : Nat) :
    Records env (db.marks (env.rowId row.key)) row.reading (row.event env now db) where
  id := by rw [UsageRow.event, h.high_eq hcost]; rfl
  tokens := by rw [UsageRow.event, h.previous_eq]; rfl
  cost := by
    simp only [UsageRow.event, h.previous_eq, UsageRow.reading]
    split <;> rfl
  provider := by
    simp only [UsageRow.event, h.previous_eq, UsageRow.reading]
    rfl

theorem DbInv.importRow (h : DbInv env db readings) (hcost : CostKnown env db row) (now : Nat) :
    DbInv env (row.importRow env now db) (readings ++ [row.reading]) := by
  have hkey : CheckpointId.digest (env.source_key row.key) = env.rowId row.reading.row := rfl
  rw [UsageRow.importRow, UsageRow.importEvent, h.not_baselined, h.high_eq hcost, hkey]
  by_cases hgrown : row.Grown env db
  · rw [if_pos ⟨by simp, hgrown⟩]
    exact h.record ((h.grown_iff hcost).mp hgrown) (h.event_records hcost now)
  · have hcovers := not_not.mp (mt (h.grown_iff hcost).mpr hgrown)
    rw [if_neg (by simp [hgrown]), Marks.raise_eq hcovers]
    exact (h.skip (r := row.reading) hcovers).same row.key

/-- The marks of every row stay or rise. -/
theorem DbInv.marks_le_importRow (h : DbInv env db readings) (hcost : CostKnown env db row)
    (now : Nat) (v : RowKey) :
    db.marks (env.rowId v) ≤ (row.importRow env now db).marks (env.rowId v) := by
  have hmarks : ∀ db' : UsageDb C D, db'.checkpoints = db.checkpoints →
      db.marks (env.rowId v) ≤ (db'.checkpoint (env.rowId row.key) (row.high env db)).marks
        (env.rowId v) := by
    intro db' heq
    by_cases hv : v = row.key
    · rw [hv, marks_checkpoint_self, h.high_eq hcost]
      exact Marks.le_raise _ _
    · rw [marks_checkpoint_ne fun hk => hv (rowId_injective hk), UsageDb.marks, UsageDb.marks, heq]
      exact Marks.le_refl _
  refine hmarks _ ?_
  unfold UsageRow.importEvent UsageDb.insertEvent
  split
  · split <;> rfl
  · rfl

theorem DbInv.importRows (h : DbInv env db readings) (now : Nat) {rows : List (UsageRow C)}
    (hcost : ∀ row ∈ rows, CostKnown env db row) :
    DbInv env (importRows env now db rows) (readings ++ rows.map (·.reading)) ∧
      ∀ v, db.marks (env.rowId v) ≤ (importRows env now db rows).marks (env.rowId v) := by
  induction rows generalizing db readings with
  | nil => exact ⟨by simpa [Usage.importRows] using h, fun v => Marks.le_refl _⟩
  | cons row rows ih =>
      have hrow := hcost row List.mem_cons_self
      have hone := h.importRow hrow now
      have hle := h.marks_le_importRow hrow now
      obtain ⟨hrest, hmono⟩ := ih hone fun row' hrow' =>
        (hcost row' (List.mem_cons_of_mem _ hrow')).imp_right fun hc =>
          hc.trans (hle row'.key).2.1
      rw [List.map_cons, List.append_cons]
      exact ⟨hrest, fun v => Marks.le_trans (hle v) (hmono v)⟩

theorem DbInv.import_hermes (h : DbInv env db readings) (now : Nat) {rows : List (UsageRow C)}
    {failure : Option (Failure C)} (hcost : ∀ row ∈ reached rows failure, CostKnown env db row)
    (hfail : ∀ row, failure = some (.checkpoint row) →
      ¬ row.Grown env (Usage.importRows env now db rows)) :
    DbInv env (import_hermes env now db rows failure)
      (readings ++ (reached rows failure).map (·.reading)) := by
  match failure with
  | none => exact (h.importRows now hcost).1
  | some (.event row) => exact (h.importRows now hcost).1
  | some (.checkpoint row) =>
      obtain ⟨hrows, hmono⟩ := h.importRows now fun row' hrow' =>
        hcost row' (List.mem_append_left _ hrow')
      have hknown : CostKnown env (Usage.importRows env now db rows) row :=
        (hcost row (List.mem_append_right _ (List.mem_singleton_self row))).imp_right
          fun hc => hc.trans (hmono row.key).2.1
      have hgrown := hfail row rfl
      have hcovers := not_not.mp (mt (hrows.grown_iff hknown).mpr hgrown)
      show DbInv env (row.importEvent env now _) (readings ++ (rows ++ [row]).map (·.reading))
      rw [UsageRow.importEvent, if_neg (by simp [hgrown]), List.map_append, ← List.append_assoc]
      exact hrows.skip hcovers

end Rows

/-! ## Reports -/

section Reports

variable {env : UsageEnv C D} {db : UsageDb C D} {readings : List (Reading C)}

/-- A report that the runner writes of a row of a shared home. -/
structure Spooled.Shared (env : UsageEnv C D) (r : Spooled C D) : Prop where
  cumulative : r.report.cumulative = true
  activity : r.report.activity = "migration"
  checkpoint : r.report.source_checkpoint = some (env.source_checkpoint r.row)

theorem shared_of_recorded {path reference : String} {timestamp : Nat} {row : UsageRow C}
    {report : UsageReport C D}
    (h : recordSharedRuntimeUsage env path reference timestamp row = some report) :
    Spooled.Shared env ⟨row.key, report⟩ := by
  simp only [recordSharedRuntimeUsage, Option.bind_eq_bind, Option.pure_def,
    Option.bind_eq_some_iff] at h
  obtain ⟨session, hs, model, hm, provider, hp, base, hb, mode, hmo, task, ht, _, -, _, -, _, -,
    _, -, _, -, heq⟩ := h
  obtain rfl := Option.some.inj heq
  refine ⟨rfl, rfl, ?_⟩
  simp [UsageRow.key, hs, hm, hp, hb, hmo, ht]

theorem Spooled.Shared.key_eq {r : Spooled C D} (hs : r.Shared env) (hr : ¬ r.row.Separated) :
    r.report.key = env.rowId r.reading.row := by
  rw [UsageReport.key, hs.checkpoint]
  exact congrArg CheckpointId.digest ((source_checkpoint_eq_iff env r.row).mpr hr)

theorem DbInv.report_high_eq (h : DbInv env db readings) {r : Spooled C D}
    (hkey : r.report.key = env.rowId r.reading.row) :
    r.report.high db = (db.marks (env.rowId r.reading.row)).raise r.reading := by
  obtain ⟨hcost, hprovider⟩ := h.nonneg r.reading.row
  have hprev : r.report.previous db = db.marks (env.rowId r.reading.row) := by
    rw [UsageReport.previous, hkey]
    rfl
  rw [UsageReport.high, hprev, Marks.raise]
  congr 1
  · cases hc : r.report.fallback_cost with
    | none => simpa [Spooled.reading, hc] using hcost
    | some c => simp [Spooled.reading, hc, max_comm]
  · cases hc : r.report.provider_cost with
    | none => simpa [Spooled.reading, hc] using hprovider
    | some c => simp [Spooled.reading, hc, max_comm]

theorem DbInv.report_grown_iff (h : DbInv env db readings) {r : Spooled C D}
    (hkey : r.report.key = env.rowId r.reading.row) :
    r.report.Grown db ↔ ¬ (db.marks (env.rowId r.reading.row)).Covers r.reading := by
  obtain ⟨hcost, hprovider⟩ := h.nonneg r.reading.row
  have hprev : r.report.previous db = db.marks (env.rowId r.reading.row) := by
    rw [UsageReport.previous, hkey]
    rfl
  have hlt : ∀ {m : C} {x : Option C}, 0 ≤ m → (m < x.getD 0 ↔ ¬ ∀ c ∈ x, c ≤ m) := by
    intro m x hm
    cases x with
    | none => simpa using hm
    | some c => simp
  rw [UsageReport.Grown, hprev, hlt hcost, hlt hprovider, Marks.Covers]
  constructor
  · rintro (⟨k, hk⟩ | hk | hk) hcovers
    · exact absurd (hcovers.1 k) (not_le_of_gt hk)
    · exact hk hcovers.2.1
    · exact hk hcovers.2.2
  · intro hnot
    by_contra hgrown
    simp only [not_or, not_exists, not_lt, not_not] at hgrown
    exact hnot hgrown

theorem DbInv.importReport (h : DbInv env db readings) {r : Spooled C D} (hs : r.Shared env)
    (hr : ¬ r.row.Separated) :
    ∃ db', r.report.importReport env db = some db' ∧ DbInv env db' (readings ++ [r.reading]) := by
  have hkey := hs.key_eq hr
  have hhigh := h.report_high_eq hkey
  have hprev : r.report.previous db = db.marks (env.rowId r.reading.row) := by
    rw [UsageReport.previous, hkey]
    rfl
  rw [UsageReport.importReport, if_pos hs.cumulative]
  by_cases hgrown : r.report.Grown db
  · refine ⟨_, by rw [if_pos hgrown, hs.activity]; rfl, ?_⟩
    have hrecords : Records env (db.marks (env.rowId r.reading.row)) r.reading
        (r.report.event env db .migration) := by
      constructor
      · rw [UsageReport.event, hhigh, hkey]
      · rw [UsageReport.event, hprev]
        rfl
      · rw [UsageReport.event, hprev]
        rfl
      · rw [UsageReport.event, hprev]
        rfl
    rw [hhigh, hkey]
    exact h.record ((h.report_grown_iff hkey).mp hgrown) hrecords
  · refine ⟨_, if_neg hgrown, ?_⟩
    have hcovers := not_not.mp (mt (h.report_grown_iff hkey).mpr hgrown)
    rw [hhigh, hkey, Marks.raise_eq hcovers]
    exact (h.skip (r := r.reading) hcovers).same r.reading.row

end Reports

/-! ## Runs -/

section Runs

variable {env : UsageEnv C D} {s t : UsageState C D}

structure UsageInv (env : UsageEnv C D) (s : UsageState C D) : Prop where
  db : DbInv env s.db s.readings
  spool : ∀ r ∈ s.spool, r.Shared env

theorem usage_initial (env : UsageEnv C D) (started : Nat) :
    UsageInv env (UsageState.initial started) := by
  refine ⟨⟨rfl, by simp [UsageState.initial], by simp [UsageState.initial], fun v => ?_⟩,
    by simp [UsageState.initial]⟩
  exact ⟨fun k => Exact.start, Exact.start, Exact.start⟩

theorem next_usage {a : UsageAction C} (hi : UsageInv env s) (hn : s.next env a t)
    (hc : Countable env ⟨s, a, t⟩) : UsageInv env t := by
  unfold UsageState.next at hn
  cases a with
  | exported path reference timestamp row =>
      rw [UsageState.step] at hn
      split at hn
      · cases hn
        exact hi
      · rename_i report hreport
        cases hn
        refine ⟨hi.db, fun r hr => ?_⟩
        rcases List.mem_append.mp hr with hr | hr
        · exact hi.spool r hr
        · obtain rfl := List.mem_singleton.mp hr
          exact shared_of_recorded hreport
  | imported i unlinked =>
      rw [UsageState.step] at hn
      split at hn
      · cases hn
      · rename_i r hr
        obtain ⟨db', himport, hdb⟩ :=
          hi.db.importReport (hi.spool r (List.mem_of_getElem? hr)) (hc r hr)
        rw [himport] at hn
        cases hn
        refine ⟨hdb, fun r' hr' => hi.spool r' ?_⟩
        split at hr'
        · exact List.mem_of_mem_eraseIdx hr'
        · exact hr'
  | collected now rows failure =>
      cases hn
      refine ⟨hi.db.import_hermes now hc.1 fun row hrow => ?_, hi.spool⟩
      subst hrow
      exact hc.2 row rfl
  | crashed =>
      cases hn
      exact hi

/-- The events of a row are those of its one checkpoint. -/
theorem counted_of_inv (hi : UsageInv env s) : CountedOnce env s := by
  intro v
  have hevents : (s.db.events.filter fun e => e.Of env v) = s.db.eventsAt (env.rowId v) := by
    refine List.filter_congr fun e he => ?_
    obtain ⟨w, m, hid, -⟩ := hi.db.ids e he
    have hown : e.id.checkpoint = some (env.rowId w) := by rw [hid]; rfl
    refine decide_eq_decide.mpr ⟨?_, .inl⟩
    rintro (h | h)
    · exact h
    · rw [hown] at h
      have hdigest := CheckpointId.digest.inj (Option.some.inj h)
      obtain ⟨rfl, -⟩ := eq_of_source_checkpoint hdigest.symm
      exact hown
  obtain ⟨htokens, hcost, hprovider⟩ := hi.db.metered v
  constructor
  · intro k
    rw [hevents]
    exact (htokens k).total
  · rw [hevents]
    exact hcost.total
  · rw [hevents]
    exact hprovider.total

end Runs

/-! ## One row -/

section OneRow

def plainEnv : UsageEnv Int (List Char ⊕ Marks Int) :=
  ⟨Sum.inl, Sum.inl_injective, fun _ => "", Sum.inr, Sum.inr_injective⟩

def hermesRow (input cost : Int) (status : Option String) : UsageRow Int :=
  ⟨some "s", some "m", some "p", some "", some "api", some "", fun _ => some input, some cost,
    status, none, none, some "openlia-migration:r"⟩

end OneRow

end Openlia.Usage
