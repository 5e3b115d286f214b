import Openlia.Usage.Intake

/-! # What an import keeps

Events stay and the counters of a checkpoint do not fall, whatever is imported.
-/

namespace Openlia.Usage.Intake

open Lib Lib.Retry

variable {F : Type} {env : Env F} {now : F} {db db' : Db F}

structure Db.Grows (db db' : Db F) : Prop where
  events : ∀ e ∈ db.events, e ∈ db'.events
  checkpoints : ∀ key high, db.checkpoints key = some high →
    ∃ high', db'.checkpoints key = some high' ∧ ∀ k, high.tokens k ≤ high'.tokens k

theorem Db.Grows.refl (db : Db F) : db.Grows db :=
  ⟨fun _ he => he, fun _ high h => ⟨high, h, fun _ => le_rfl⟩⟩

theorem Db.Grows.trans {db₁ db₂ db₃ : Db F} (h : db₁.Grows db₂) (h' : db₂.Grows db₃) :
    db₁.Grows db₃ := by
  constructor
  · intro e he
    exact h'.events e (h.events e he)
  · intro key high hhigh
    obtain ⟨high₂, h₂, hle⟩ := h.checkpoints key high hhigh
    obtain ⟨high₃, h₃, hle'⟩ := h'.checkpoints key high₂ h₂
    exact ⟨high₃, h₃, fun k => (hle k).trans (hle' k)⟩

theorem Db.grows_checkpoint {key : Str} {high : Marks (Num F)}
    (h : ∀ old, db.checkpoints key = some old → ∀ k, old.tokens k ≤ high.tokens k) :
    db.Grows (db.checkpoint key high) := by
  constructor
  · intro e he
    exact he
  · intro key' old hold
    by_cases hkey : key' = key
    · subst hkey
      exact ⟨high, Function.update_self .., h old hold⟩
    · refine ⟨old, ?_, fun _ => le_rfl⟩
      rw [← hold]
      exact Function.update_of_ne hkey ..

theorem Db.checkpoint_self (db : Db F) (key : Str) (high : Marks (Num F)) :
    (db.checkpoint key high).checkpoints key = some high :=
  Function.update_self ..

theorem highMarks_tokens (fl : Floats F) (previous : Marks (Num F)) (current : Tokens)
    (cost actual : Num F) (k : Token) :
    previous.tokens k ≤ (highMarks fl previous current cost actual).tokens k ∧
      current k ≤ (highMarks fl previous current cost actual).tokens k :=
  ⟨le_max_right _ _, le_max_left _ _⟩

/-! ## Events -/

/-- What is inserted: nothing, or one event of the id. -/
theorem insert_spec {fl : Floats F} {e : Event F} (h : db.insert fl e = .ok db') :
    (fl.isNaN e.timestamp = false → ∃ e' ∈ db'.events, e'.id = e.id) ∧ db.Grows db' ∧
      db'.checkpoints = db.checkpoints := by
  unfold Db.insert at h
  split at h
  · cases h
    split
    · rename_i hskip
      refine ⟨?_, .refl db, rfl⟩
      intro hnow
      simp only [hnow, Bool.false_eq_true, false_or, List.any_eq_true, decide_eq_true_eq] at hskip
      exact hskip
    · refine ⟨fun _ => ⟨e, by simp, rfl⟩, ⟨?_, ?_⟩, rfl⟩
      · intro e' he'
        exact List.mem_append_left _ he'
      · intro key high hhigh
        exact ⟨high, hhigh, fun _ => le_rfl⟩
  · contradiction

theorem insert_event_spec {report : Dict F} (h : insert_event env now db report = .ok db') :
    ∃ id timestamp, report.lookup (lit "id") = some id ∧
      ((report.get "timestamp").orElse env.toFloats (.num (.float now))).toFloat env.toFloats =
        .ok timestamp ∧
      (env.isNaN timestamp = false → ∃ e ∈ db'.events, e.id = (strOf env id).take 512) ∧
      db.Grows db' ∧ db'.checkpoints = db.checkpoints := by
  unfold insert_event at h
  obtain ⟨activity, -, h⟩ := except_bind_ok h
  obtain ⟨fallback_cost, -, h⟩ := except_bind_ok h
  obtain ⟨provider_cost, -, h⟩ := except_bind_ok h
  obtain ⟨id, hid, h⟩ := except_bind_ok h
  obtain ⟨timestamp, htimestamp, h⟩ := except_bind_ok h
  obtain ⟨tokens, -, h⟩ := except_bind_ok h
  obtain ⟨hevent, hgrows, hcheckpoints⟩ := insert_spec h
  refine ⟨id, timestamp, ?_, htimestamp, hevent, hgrows, hcheckpoints⟩
  cases hlookup : report.lookup (lit "id") with
  | none =>
      rw [hlookup] at hid
      contradiction
  | some v =>
      rw [hlookup] at hid
      cases hid
      rfl

/-! ## Reports -/

theorem insertGrown_grows {report : Dict F} {key : Str} {previous : Marks (Num F)}
    {current : Tokens} {cost actual : Num F} {fallback_cost provider_cost : Value F}
    (h : insertGrown env now db report key previous current cost actual fallback_cost
      provider_cost = .ok db') :
    db.Grows db' ∧ db'.checkpoints = db.checkpoints := by
  unfold insertGrown at h
  dsimp only at h
  split at h
  · obtain ⟨_, _, _, _, _, hgrows⟩ := insert_event_spec h
    exact hgrows
  · cases h
    exact ⟨.refl db, rfl⟩

theorem importCumulative_spec {report : Dict F} (h : importCumulative env now db report = .ok db') :
    ∃ key current cost actual db₁, reportKey env report = .ok key ∧
      counters env.toFloats ((report.get "tokens").orElse env.toFloats (.dict [])) = .ok current ∧
      ((report.get "fallback_cost").orElse env.toFloats .zero).number = .ok cost ∧
      ((report.get "provider_cost").orElse env.toFloats .zero).number = .ok actual ∧
      (db.Grows db₁ ∧ db₁.checkpoints = db.checkpoints) ∧
      db' = db₁.checkpoint key
        (highMarks env.toFloats ((db.checkpoints key).getD noMarks) current cost actual) := by
  unfold importCumulative at h
  obtain ⟨key, hkey, h⟩ := except_bind_ok h
  obtain ⟨old, hold, h⟩ := except_bind_ok h
  obtain ⟨current, hcurrent, h⟩ := except_bind_ok h
  obtain ⟨cost, hcost, h⟩ := except_bind_ok h
  obtain ⟨actual, hactual, h⟩ := except_bind_ok h
  obtain ⟨fallback_cost, -, h⟩ := except_bind_ok h
  obtain ⟨provider_cost, -, h⟩ := except_bind_ok h
  obtain ⟨db₁, hdb₁, h⟩ := except_bind_ok h
  have hlookup : db.checkpoints key = old := by
    unfold storedMarks at hold
    split at hold
    · exact Except.ok.inj hold
    · contradiction
  cases h
  refine ⟨key, current, cost, actual, db₁, hkey, hcurrent, hcost, hactual, ?_, ?_⟩
  · exact insertGrown_grows hdb₁
  · rw [hlookup]

theorem importCumulative_grows {report : Dict F}
    (h : importCumulative env now db report = .ok db') : db.Grows db' := by
  obtain ⟨key, current, cost, actual, db₁, -, -, -, -, ⟨hgrows, hcheckpoints⟩, rfl⟩ :=
    importCumulative_spec h
  apply hgrows.trans
  apply Db.grows_checkpoint
  intro old hold k
  rw [hcheckpoints] at hold
  rw [hold]
  exact (highMarks_tokens ..).1

theorem importReport_grows {v : Value F} (h : importReport env now db v = .ok db') :
    db.Grows db' := by
  unfold importReport at h
  split at h
  · split at h
    · exact importCumulative_grows h
    · obtain ⟨_, _, _, _, _, hgrows, _⟩ := insert_event_spec h
      exact hgrows
  · contradiction

/-! ## Rows -/

theorem rowEvent_grows {row : Dict F} {key : Str} {old : Option (Marks (Num F))}
    {current : Tokens} {cost actual : Num F}
    (h : rowEvent env now db row key old current cost actual = .ok db') :
    db.Grows db' ∧ db'.checkpoints = db.checkpoints := by
  unfold rowEvent at h
  obtain ⟨historical, -, h⟩ := except_bind_ok h
  obtain ⟨source, -, h⟩ := except_bind_ok h
  obtain ⟨provider_cost, -, h⟩ := except_bind_ok h
  obtain ⟨fallback_cost, -, h⟩ := except_bind_ok h
  obtain ⟨_, _, _, _, _, hgrows⟩ := insert_event_spec h
  exact hgrows

theorem importRow_spec {row : Dict F} (h : importRow env now db row = .ok db') :
    ∃ values current estimated actual db₁, rowValues row = .ok values ∧
      counters env.toFloats (.dict row) = .ok current ∧
      (db.Grows db₁ ∧ db₁.checkpoints = db.checkpoints) ∧
      let key := env.source_key (values.map (·.orElse env.toFloats (.str [])))
      db' = db₁.checkpoint key (highMarks env.toFloats
        (((db.checkpoints key).or (db.checkpoints (env.legacy_key values))).getD noMarks) current
        ((Num.int 0).max env.toFloats (.float estimated)) (.float actual)) := by
  unfold importRow at h
  obtain ⟨values, hvalues, h⟩ := except_bind_ok h
  obtain ⟨current, hcurrent, h⟩ := except_bind_ok h
  obtain ⟨estimated, -, h⟩ := except_bind_ok h
  obtain ⟨actual, -, h⟩ := except_bind_ok h
  obtain ⟨baselined, -, h⟩ := except_bind_ok h
  obtain ⟨db₁, hdb₁, h⟩ := except_bind_ok h
  cases h
  refine ⟨values, current, estimated, actual, db₁, hvalues, hcurrent, ?_, rfl⟩
  split at hdb₁
  · exact rowEvent_grows hdb₁
  · cases hdb₁
    exact ⟨.refl db, rfl⟩

theorem importRow_grows {row : Dict F} (h : importRow env now db row = .ok db') :
    db.Grows db' := by
  obtain ⟨values, current, estimated, actual, db₁, -, -, ⟨hgrows, hcheckpoints⟩, rfl⟩ :=
    importRow_spec h
  apply hgrows.trans
  apply Db.grows_checkpoint
  intro old hold k
  rw [hcheckpoints] at hold
  rw [hold]
  exact (highMarks_tokens ..).1

theorem importRows_grows (db : Db F) (rows : List (Dict F)) :
    db.Grows (importRows env now db rows) := by
  induction rows generalizing db with
  | nil => exact .refl db
  | cons row rows ih =>
      unfold importRows
      cases hrow : importRow env now db row with
      | ok db' => exact (importRow_grows hrow).trans (ih db')
      | error e => exact .refl db

theorem import_hermes_grows (db : Db F) (rows : Except Exn (List (Dict F))) :
    db.Grows (import_hermes env now db rows) := by
  cases rows with
  | error e => exact .refl db
  | ok rows => exact importRows_grows db _

/-! ## What has been accounted -/

/-- The counters are in the checkpoint, and a report that is not cumulative has its event. -/
def Accounted (env : Env F) (db : Db F) : Value F → Prop
  | .dict report =>
      if (Dict.get report "cumulative").truthy env.toFloats then
        ∃ key current high, reportKey env report = .ok key ∧
          counters env.toFloats ((Dict.get report "tokens").orElse env.toFloats (.dict [])) =
            .ok current ∧
          db.checkpoints key = some high ∧ ∀ k, current k ≤ high.tokens k
      else ∃ id e, report.lookup (lit "id") = some id ∧ e ∈ db.events ∧
        e.id = (strOf env id).take 512
  | _ => False

/-- The counters of the row are in its checkpoint. -/
def Counted (env : Env F) (db : Db F) (row : Dict F) : Prop :=
  ∃ values current high, rowValues row = .ok values ∧
    counters env.toFloats (.dict row) = .ok current ∧
    db.checkpoints (env.source_key (values.map (·.orElse env.toFloats (.str [])))) = some high ∧
    ∀ k, current k ≤ high.tokens k

theorem Accounted.mono {v : Value F} (h : Accounted env db v) (hgrows : db.Grows db') :
    Accounted env db' v := by
  cases v with
  | dict report =>
      unfold Accounted at h ⊢
      dsimp only at h ⊢
      split
      · rename_i hcumulative
        rw [if_pos hcumulative] at h
        obtain ⟨key, current, high, hkey, hcurrent, hhigh, hle⟩ := h
        obtain ⟨high', hhigh', hle'⟩ := hgrows.checkpoints key high hhigh
        exact ⟨key, current, high', hkey, hcurrent, hhigh', fun k => (hle k).trans (hle' k)⟩
      · rename_i hplain
        rw [if_neg hplain] at h
        obtain ⟨id, e, hid, he, heq⟩ := h
        exact ⟨id, e, hid, hgrows.events e he, heq⟩
  | _ => exact h

theorem Counted.mono {row : Dict F} (h : Counted env db row) (hgrows : db.Grows db') :
    Counted env db' row := by
  obtain ⟨values, current, high, hvalues, hcurrent, hhigh, hle⟩ := h
  obtain ⟨high', hhigh', hle'⟩ := hgrows.checkpoints _ high hhigh
  exact ⟨values, current, high', hvalues, hcurrent, hhigh', fun k => (hle k).trans (hle' k)⟩

theorem importRow_counted {row : Dict F} (h : importRow env now db row = .ok db') :
    Counted env db' row := by
  obtain ⟨values, current, estimated, actual, db₁, hvalues, hcurrent, -, rfl⟩ :=
    importRow_spec h
  exact ⟨values, current, _, hvalues, hcurrent, Db.checkpoint_self .., fun k =>
    (highMarks_tokens ..).2⟩

/-- A timestamp that is a number is kept. -/
theorem importReport_accounted {report : Dict F} {timestamp : F}
    (htimestamp : ((report.get "timestamp").orElse env.toFloats (.num (.float now))).toFloat
      env.toFloats = .ok timestamp) (hnumber : env.isNaN timestamp = false)
    (h : importReport env now db (.dict report) = .ok db') : Accounted env db' (.dict report) := by
  unfold importReport at h
  unfold Accounted
  dsimp only at h ⊢
  split
  · rename_i hcumulative
    rw [if_pos hcumulative] at h
    obtain ⟨key, current, cost, actual, db₁, hkey, hcurrent, -, -, -, rfl⟩ :=
      importCumulative_spec h
    exact ⟨key, current, _, hkey, hcurrent, Db.checkpoint_self .., fun k =>
      (highMarks_tokens ..).2⟩
  · rename_i hplain
    rw [if_neg hplain] at h
    obtain ⟨id, timestamp', hid, htimestamp', hevent, -, -⟩ := insert_event_spec h
    rw [htimestamp] at htimestamp'
    cases htimestamp'
    obtain ⟨e, he, heq⟩ := hevent hnumber
    exact ⟨id, e, hid, he, heq⟩

end Openlia.Usage.Intake
