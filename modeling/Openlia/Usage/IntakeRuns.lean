import Openlia.Usage.IntakeGrowth
import Openlia.Usage.WellFormed

/-! # Accounting beside bad input

In every tick a well-formed report is among those that are tried, as long as fewer than a thousand
files are not well formed, and it leaves the directory. So there is a bound on the ticks until all
of them are imported, provided that no file raises what is not caught.
-/

namespace Openlia.Usage.Intake

open Lib Lib.Retry

variable {F : Type} {env : Env F} {fl : Floats F} {now : F} {db db' : Db F}

/-! ## Files -/

def WellFormedFile (fl : Floats F) (file : File F) : Prop :=
  file.symlink = false ∧ file.size ≤ 65536 ∧
    ∃ report, file.loaded = .ok (.dict report) ∧ WellFormedReport fl report

/-- What it raises is caught, and its costs are numbers that a float can hold. -/
def HarmlessFile (fl : Floats F) (file : File F) : Prop :=
  match file.loaded with
  | .ok (.dict report) => HarmlessReport fl report
  | .ok _ => True
  | .error e => e.caught = true

def AccountedFile (env : Env F) (db : Db F) (file : File F) : Prop :=
  ∃ v, file.loaded = .ok v ∧ Accounted env db v

theorem importFile_done {file : File F} (h : importFile env now db file = .done db') :
    ∃ v, file.loaded = .ok v ∧ importReport env now db v = .ok db' := by
  unfold importFile at h
  split at h
  · contradiction
  · cases hloaded : file.loaded with
    | error e =>
        simp only [hloaded, error_bind] at h
        split at h <;> contradiction
    | ok v =>
        simp only [hloaded, ok_bind] at h
        cases hreport : importReport env now db v with
        | error e =>
            simp only [hreport] at h
            split at h <;> contradiction
        | ok db₁ =>
            simp only [hreport, Outcome.done.injEq] at h
            exact ⟨v, rfl, h ▸ hreport⟩

theorem importFile_isDone {file : File F} (h : WellFormedFile env.toFloats file)
    (hnow : env.isNaN now = false) (hdb : db.Ranged) :
    ∃ db', importFile env now db file = .done db' := by
  obtain ⟨hsymlink, hsize, report, hloaded, hreport⟩ := h
  obtain ⟨db', hdb'⟩ := importReport_isOk hreport hnow hdb
  refine ⟨db', ?_⟩
  have hread : ¬ (file.symlink = true ∨ 65536 < file.size) := by
    simp only [hsymlink, Bool.false_eq_true, false_or]
    omega
  simp only [importFile, if_neg hread, hloaded, ok_bind, hdb']

theorem importFile_caught {file : File F} (h : HarmlessFile env.toFloats file) :
    importFile env now db file ≠ .escaped := by
  have hcaught : CaughtOnly (file.loaded >>= importReport env now db) := by
    unfold HarmlessFile at h
    split at h
    · rename_i report hloaded
      rw [hloaded]
      exact caughtOnly_importReport h
    · rename_i v hne hloaded
      rw [hloaded, ok_bind, importReport]
      · exact .error rfl
      · exact hne
    · rename_i e hloaded
      rw [hloaded]
      exact .error h
  unfold importFile
  split
  · intro hescaped
    contradiction
  · split
    · intro hescaped
      contradiction
    · rename_i e he
      rw [if_pos (hcaught e he)]
      intro hescaped
      contradiction

/-! ## Costs stay in range -/

theorem Db.Ranged.checkpoint {fl : Floats F} {key : Str} {previous : Marks (Num F)}
    {current : Tokens} {cost actual : Num F} (h : db.Ranged)
    (hprevious : previous.cost.Small ∧ previous.provider_cost.Small) (hcost : cost.Small)
    (hactual : actual.Small) :
    (db.checkpoint key (highMarks fl previous current cost actual)).Ranged := by
  intro key' high hhigh
  by_cases hkey : key' = key
  · subst hkey
    rw [Db.checkpoint_self] at hhigh
    cases hhigh
    exact ⟨hcost.max hprevious.1, hactual.max hprevious.2⟩
  · have hsame : (db.checkpoint key (highMarks fl previous current cost actual)).checkpoints key' =
        db.checkpoints key' := Function.update_of_ne hkey ..
    rw [hsame] at hhigh
    exact h key' high hhigh

theorem ranged_of_checkpoints (h : db.Ranged) (heq : db'.checkpoints = db.checkpoints) :
    db'.Ranged := by
  intro key high hhigh
  rw [heq] at hhigh
  exact h key high hhigh

theorem HarmlessCost.number_small {v : Value F} {n : Num F} (h : HarmlessCost v)
    (hn : (v.orElse fl .zero).number = .ok n) : n.Small := by
  unfold Value.orElse at hn
  split at hn
  · cases v with
    | num m =>
        cases hn
        exact h
    | _ => contradiction
  · cases hn
    exact Nat.zero_le _

theorem importReport_ranged {report : Dict F} (h : HarmlessReport env.toFloats report)
    (hdb : db.Ranged) (hok : importReport env now db (.dict report) = .ok db') : db'.Ranged := by
  unfold importReport at hok
  dsimp only at hok
  split at hok
  · obtain ⟨key, current, cost, actual, db₁, -, -, hcost, hactual, ⟨-, hcheckpoints⟩, rfl⟩ :=
      importCumulative_spec hok
    exact (ranged_of_checkpoints hdb hcheckpoints).checkpoint (getD_small (hdb key))
      (h.fallback_cost.number_small hcost) (h.provider_cost.number_small hactual)
  · obtain ⟨_, _, _, _, _, _, hcheckpoints⟩ := insert_event_spec hok
    exact ranged_of_checkpoints hdb hcheckpoints

theorem importRow_ranged {row : Dict F} (hdb : db.Ranged)
    (hok : importRow env now db row = .ok db') : db'.Ranged := by
  obtain ⟨values, current, estimated, actual, db₁, -, -, ⟨-, hcheckpoints⟩, rfl⟩ :=
    importRow_spec hok
  apply (ranged_of_checkpoints hdb hcheckpoints).checkpoint
  · apply getD_small
    intro high hor
    rcases Option.or_eq_some_iff.mp hor with hkey | ⟨-, hlegacy⟩
    · exact hdb _ high hkey
    · exact hdb _ high hlegacy
  · exact Num.Small.max (Nat.zero_le _) True.intro
  · exact True.intro

theorem importRows_ranged (hdb : db.Ranged) (rows : List (Dict F)) :
    (importRows env now db rows).Ranged := by
  induction rows generalizing db with
  | nil => exact hdb
  | cons row rows ih =>
      unfold importRows
      cases hrow : importRow env now db row with
      | ok db' => exact ih (importRow_ranged hdb hrow)
      | error e => exact hdb

/-- The files of a sweep, all of them harmless. -/
theorem importFile_growing (env : Env F) (now : F) :
    Growing (importFile env now) (HarmlessFile env.toFloats) Db.Ranged Db.Grows where
  refl := Db.Grows.refl
  trans := Db.Grows.trans
  keeps := by
    intro db file db' hfile hdb hdone
    obtain ⟨v, hloaded, hreport⟩ := importFile_done hdone
    cases v with
    | dict report =>
        simp only [HarmlessFile, hloaded] at hfile
        exact importReport_ranged hfile hdb hreport
    | _ => contradiction
  grows := by
    intro db file db' hdone
    obtain ⟨v, -, hreport⟩ := importFile_done hdone
    exact importReport_grows hreport
  caught := importFile_caught

/-! ## Ticks -/

/-- A row before which nothing raises is reached. -/
theorem importRows_counted {before after : List (Dict F)} {row : Dict F} (hdb : db.Ranged)
    (hbefore : ∀ r ∈ before, WellFormedRow env.toFloats r)
    (hrow : WellFormedRow env.toFloats row) :
    Counted env (importRows env now db (before ++ row :: after)) row := by
  induction before generalizing db with
  | nil =>
      obtain ⟨db', hdb'⟩ := importRow_isOk now hrow hdb
      simp only [List.nil_append, importRows, hdb']
      exact (importRow_counted hdb').mono (importRows_grows db' after)
  | cons r before ih =>
      obtain ⟨db', hdb'⟩ := importRow_isOk now (hbefore r List.mem_cons_self) hdb
      simp only [List.cons_append, importRows, hdb']
      exact ih (importRow_ranged hdb hdb') fun r' hr' => hbefore r' (List.mem_cons_of_mem r hr')

section Ticks

variable {rows : Except Exn (List (Dict F))} {listing : List (File F)}

theorem tick_completed (rows : Except Exn (List (Dict F)))
    (hfiles : ∀ f ∈ listing, HarmlessFile env.toFloats f) (hdb : db.Ranged) :
    (sweep (importFile env now) db (listing.take 1000)).1.Ranged ∧
      (tick env now rows db listing).db =
        import_hermes env now (sweep (importFile env now) db (listing.take 1000)).1 rows := by
  obtain ⟨hranged, hcompleted⟩ := sweep_keeps (importFile_growing env now)
    (fun f hf => hfiles f (List.mem_of_mem_take hf)) hdb
  exact ⟨hranged, if_pos hcompleted⟩

theorem tick_ranged (hfiles : ∀ f ∈ listing, HarmlessFile env.toFloats f) (hdb : db.Ranged) :
    (tick env now rows db listing).db.Ranged := by
  obtain ⟨hranged, heq⟩ := tick_completed rows hfiles hdb
  rw [heq]
  cases rows with
  | error e => exact hranged
  | ok rows => exact importRows_ranged hranged _

theorem tick_grows : db.Grows (tick env now rows db listing).db := by
  have hsweep := sweep_grows (importFile_growing env now) db (listing.take 1000)
  unfold tick
  dsimp only
  split
  · exact hsweep.trans (import_hermes_grows _ rows)
  · exact hsweep

theorem tick_sublist : (tick env now rows db listing).files.Sublist listing := by
  have hkept : (sweep (importFile env now) db (listing.take 1000)).2.1.Sublist
      (listing.take 1000) := sweep_sublist db _
  have happend := hkept.append (List.Sublist.refl (listing.drop 1000))
  rwa [List.take_append_drop] at happend

/-- What has left was imported. -/
theorem tick_done {f : File F} (hf : f ∈ listing)
    (hleft : f ∉ (tick env now rows db listing).files) :
    ∃ db₁ db₂, importFile env now db₁ f = .done db₂ ∧
      db₂.Grows (tick env now rows db listing).db := by
  have hkept : f ∉ (sweep (importFile env now) db (listing.take 1000)).2.1 := fun h =>
    hleft (List.mem_append_left _ h)
  have htaken : f ∈ listing.take 1000 := by
    rw [← List.take_append_drop 1000 listing] at hf
    exact (List.mem_append.mp hf).resolve_right fun h => hleft (List.mem_append_right _ h)
  obtain ⟨db₁, db₂, hdone, hgrows⟩ := sweep_left (importFile_growing env now) htaken hkept
  refine ⟨db₁, db₂, hdone, ?_⟩
  unfold tick
  dsimp only
  split
  · exact hgrows.trans (import_hermes_grows _ rows)
  · exact hgrows

/-- A well-formed file that has left is accounted. -/
theorem tick_left {f : File F} (hf : f ∈ listing) (hwell : WellFormedFile env.toFloats f)
    (hnow : env.isNaN now = false) (hleft : f ∉ (tick env now rows db listing).files) :
    AccountedFile env (tick env now rows db listing).db f := by
  obtain ⟨db₁, db₂, hdone, hgrows⟩ := tick_done hf hleft
  obtain ⟨v, hloaded, hreport⟩ := importFile_done hdone
  obtain ⟨-, -, report, hloaded', hwell⟩ := hwell
  cases hloaded.symm.trans hloaded'
  obtain ⟨timestamp, htimestamp, hnumber⟩ := hwell.timestamp.toFloat_isOk hnow
  exact ⟨.dict report, hloaded', (importReport_accounted htimestamp hnumber hreport).mono hgrows⟩

theorem tick_counted {before after : List (Dict F)} {row : Dict F}
    (hrows : rows = .ok (before ++ row :: after)) (hlength : before.length < 10000)
    (hfiles : ∀ f ∈ listing, HarmlessFile env.toFloats f) (hdb : db.Ranged)
    (hbefore : ∀ r ∈ before, WellFormedRow env.toFloats r)
    (hrow : WellFormedRow env.toFloats row) :
    Counted env (tick env now rows db listing).db row := by
  obtain ⟨hranged, heq⟩ :
      (sweep (importFile env now) db (listing.take 1000)).1.Ranged ∧ _ :=
    tick_completed rows hfiles hdb
  have htake : (before ++ row :: after).take 10000 =
      before ++ row :: after.take (10000 - before.length - 1) := by
    have hleft : 10000 - before.length = 10000 - before.length - 1 + 1 := by omega
    rw [List.take_append, List.take_of_length_le hlength.le, hleft, List.take_succ_cons]
    rfl
  rw [heq, hrows, import_hermes, htake]
  exact importRows_counted hranged hbefore hrow

/-- While there is a well-formed file, fewer of them are left after the tick. -/
theorem tick_progress [DecidablePred (WellFormedFile env.toFloats)]
    (rows : Except Exn (List (Dict F))) (hfiles : ∀ f ∈ listing, HarmlessFile env.toFloats f)
    (hdb : db.Ranged) (hnow : env.isNaN now = false)
    (hothers : listing.countP (fun f => ¬ WellFormedFile env.toFloats f) < 1000)
    (hsome : ∃ f ∈ listing, WellFormedFile env.toFloats f) :
    (tick env now rows db listing).files.countP (fun f => WellFormedFile env.toFloats f) <
      listing.countP (fun f => WellFormedFile env.toFloats f) := by
  apply countP_good_lt _ hothers hsome
  apply sweep_good (importFile_growing env now)
  · intro db f hdb hf
    exact importFile_isDone hf hnow hdb
  · intro f hf
    exact hfiles f (List.mem_of_mem_take hf)
  · exact hdb

end Ticks

/-! ## Runs -/

section Runs

variable {rows : Except Exn (List (Dict F))} {s s' : State F} {n : Nat}
  [DecidablePred (WellFormedFile env.toFloats)]

/-- After some ticks: what has left is accounted, and either none of the well-formed files is
left or one has left in each tick. -/
structure Progress (env : Env F) [DecidablePred (WellFormedFile env.toFloats)] (s : State F)
    (n : Nat) (s' : State F) : Prop where
  ranged : s'.db.Ranged
  subset : s'.files ⊆ s.files
  others : s'.files.countP (fun f => ¬ WellFormedFile env.toFloats f) < 1000
  left : ∀ f ∈ s.files, WellFormedFile env.toFloats f →
    f ∈ s'.files ∨ AccountedFile env s'.db f
  remaining : s'.files.countP (fun f => WellFormedFile env.toFloats f) ≤
    s.files.countP (fun f => WellFormedFile env.toFloats f) - n

theorem Progress.tick {listing : List (File F)} (h : Progress env s n s')
    (hfiles : ∀ f ∈ s.files, HarmlessFile env.toFloats f) (hnow : env.isNaN now = false)
    (hlisting : listing.Perm s'.files) :
    Progress env s (n + 1) (tick env now rows s'.db listing) := by
  have hharmless : ∀ f ∈ listing, HarmlessFile env.toFloats f := fun f hf =>
    hfiles f (h.subset (hlisting.subset hf))
  have hsublist : (Intake.tick env now rows s'.db listing).files.Sublist listing := tick_sublist
  have hothers : listing.countP (fun f => ¬ WellFormedFile env.toFloats f) < 1000 := by
    rw [hlisting.countP_eq]
    exact h.others
  constructor
  · exact tick_ranged hharmless h.ranged
  · exact fun f hf => h.subset (hlisting.subset (hsublist.subset hf))
  · exact hsublist.countP_le.trans_lt hothers
  · intro f hf hwell
    rcases h.left f hf hwell with hmem | haccounted
    · by_cases hleft : f ∈ (Intake.tick env now rows s'.db listing).files
      · exact .inl hleft
      · exact .inr (tick_left (hlisting.mem_iff.mpr hmem) hwell hnow hleft)
    · obtain ⟨v, hloaded, haccounted⟩ := haccounted
      exact .inr ⟨v, hloaded, haccounted.mono tick_grows⟩
  · have hremaining := h.remaining
    rw [← hlisting.countP_eq] at hremaining
    by_cases hsome : ∃ f ∈ listing, WellFormedFile env.toFloats f
    · have hlt := tick_progress rows hharmless h.ranged hnow hothers hsome
      omega
    · have hzero : (Intake.tick env now rows s'.db listing).files.countP
          (fun f => WellFormedFile env.toFloats f) = 0 := by
        rw [List.countP_eq_zero]
        intro f hf
        rw [decide_eq_true_iff]
        exact fun hwell => hsome ⟨f, hsublist.subset hf, hwell⟩
      omega

theorem ticks_progress (hranged : s.db.Ranged)
    (hfiles : ∀ f ∈ s.files, HarmlessFile env.toFloats f)
    (hothers : s.files.countP (fun f => ¬ WellFormedFile env.toFloats f) < 1000)
    (hrun : Ticks env rows n s s') : Progress env s n s' := by
  induction hrun with
  | none s => exact ⟨hranged, fun _ hf => hf, hothers, fun f hf _ => .inl hf, le_rfl⟩
  | more now hnow _ hlisting ih => exact (ih hranged hfiles hothers).tick hfiles hnow hlisting

theorem ticks_counted {before after : List (Dict F)} {row : Dict F} (hranged : s.db.Ranged)
    (hfiles : ∀ f ∈ s.files, HarmlessFile env.toFloats f)
    (hothers : s.files.countP (fun f => ¬ WellFormedFile env.toFloats f) < 1000)
    (hrun : Ticks env rows n s s') (hpos : 0 < n)
    (hrows : rows = .ok (before ++ row :: after)) (hlength : before.length < 10000)
    (hbefore : ∀ r ∈ before, WellFormedRow env.toFloats r)
    (hrow : WellFormedRow env.toFloats row) : Counted env s'.db row := by
  cases hrun with
  | none s => contradiction
  | more now hnow hrun hlisting =>
      have hprogress := ticks_progress hranged hfiles hothers hrun
      exact tick_counted hrows hlength
        (fun f hf => hfiles f (hprogress.subset (hlisting.subset hf))) hprogress.ranged hbefore hrow

end Runs

/-! ## Bad input -/

/-- Whatever the files and the rows are, no event is removed and no counter of a checkpoint falls,
and a file that has left the directory was imported, with all that was stored for it. -/
theorem ticks_keep_imported {rows : Except Exn (List (Dict F))} {s s' : State F} {n : Nat}
    (hrun : Ticks env rows n s s') :
    s.db.Grows s'.db ∧ ∀ f ∈ s.files, f ∉ s'.files →
      ∃ now db₁ db₂, importFile env now db₁ f = .done db₂ ∧ db₂.Grows s'.db := by
  induction hrun with
  | none s =>
      refine ⟨.refl s.db, ?_⟩
      intro f hf hleft
      contradiction
  | @more n s s' now listing _ _ hlisting ih =>
      obtain ⟨hgrows, hleft⟩ := ih
      have htick : s'.db.Grows (tick env now rows s'.db listing).db := tick_grows
      refine ⟨hgrows.trans htick, ?_⟩
      intro f hf hgone
      by_cases hmem : f ∈ s'.files
      · obtain ⟨db₁, db₂, hdone, hgrows⟩ := tick_done (hlisting.mem_iff.mpr hmem) hgone
        exact ⟨now, db₁, db₂, hdone, hgrows⟩
      · obtain ⟨now', db₁, db₂, hdone, hgrows⟩ := hleft f hf hmem
        exact ⟨now', db₁, db₂, hdone, hgrows.trans htick⟩

/-- A tick stores what it would store if the files it imports were the only ones. -/
theorem tick_imported_alone (env : Env F) (now : F) (rows : Except Exn (List (Dict F))) (db : Db F)
    (listing : List (File F)) :
    ∃ left, left.Sublist (listing.take 1000) ∧
      listing.Perm (left ++ (tick env now rows db listing).files) ∧
      ∃ db', sweep (importFile env now) db left = (db', [], true) ∧
        ((tick env now rows db listing).db = db' ∨
          (tick env now rows db listing).db = import_hermes env now db' rows) := by
  obtain ⟨left, hsublist, hperm, hleft⟩ := sweep_alone (importFile env now) db (listing.take 1000)
  refine ⟨left, hsublist, ?_, _, hleft, ?_⟩
  · have happend := hperm.append_right (listing.drop 1000)
    rwa [List.take_append_drop, List.append_assoc] at happend
  · unfold tick
    dsimp only
    split
    · exact .inr rfl
    · exact .inl rfl

/-- With fewer than a thousand files that are not well formed, none of which raises what is not
caught, every well-formed file is imported after as many ticks as there are of them, and every
well-formed row among the first ten thousand before which nothing raises. -/
theorem accounting_continues {rows : Except Exn (List (Dict F))} {s s' : State F} {n : Nat}
    [DecidablePred (WellFormedFile env.toFloats)] (hranged : s.db.Ranged)
    (hfiles : ∀ f ∈ s.files, HarmlessFile env.toFloats f)
    (hothers : s.files.countP (fun f => ¬ WellFormedFile env.toFloats f) < 1000)
    (hrun : Ticks env rows n s s')
    (hn : s.files.countP (fun f => WellFormedFile env.toFloats f) < n) :
    (∀ f ∈ s.files, WellFormedFile env.toFloats f → f ∉ s'.files ∧ AccountedFile env s'.db f) ∧
    ∀ before row after, rows = .ok (before ++ row :: after) → before.length < 10000 →
      (∀ r ∈ before, WellFormedRow env.toFloats r) → WellFormedRow env.toFloats row →
        Counted env s'.db row := by
  have hprogress := ticks_progress hranged hfiles hothers hrun
  constructor
  · intro f hf hwell
    have hzero : s'.files.countP (fun f => WellFormedFile env.toFloats f) = 0 := by
      have hremaining := hprogress.remaining
      omega
    rw [List.countP_eq_zero] at hzero
    have hleft : f ∉ s'.files := fun hmem => hzero f hmem (decide_eq_true hwell)
    exact ⟨hleft, (hprogress.left f hf hwell).resolve_left hleft⟩
  · intro before row after hrows hlength hbefore hrow
    exact ticks_counted hranged hfiles hothers hrun (Nat.zero_lt_of_lt hn) hrows hlength hbefore
      hrow

/-! ## A report beside one of no activity -/

/-- Floats that are whole. -/
def wholeEnv : Env Int where
  ofInt := some
  ofText _ := none
  intOfText _ := none
  trunc := some
  lt a b := a < b
  ltInt a b := a < b
  intLt a b := a < b
  sub a b := a - b
  finite _ := true
  isNaN _ := false
  ofInt_number n _ := ⟨n, rfl, rfl⟩
  trunc_isSome _ _ := rfl
  repr _ := []
  digest _ := List.replicate 64 97
  source_key _ := List.replicate 64 98
  legacy_key _ := List.replicate 64 99
  encodable_digest _ := rfl
  encodable_source_key _ := rfl

def textEntry (key value : String) : Str × Value Int := (lit key, .str (lit value))

def goodReport : Dict Int := [textEntry "id" "a", textEntry "activity" "ingestion",
  (lit "tokens", .dict [(lit "input_tokens", .num (.int 7))])]

def goodFile : File Int := ⟨"a.json", false, 80, .ok (.dict goodReport)⟩

def badFile : File Int := ⟨"b.json", false, 20, .ok (.dict [textEntry "id" "b"])⟩

def goodRow : Dict Int := [textEntry "session_id" "s", (lit "input_tokens", .num (.int 5))]

def twoFiles : State Int := ⟨⟨0, none, fun _ => none, []⟩, [badFile, goodFile]⟩

def ticked (s : State Int) : State Int := tick wholeEnv 0 (.ok [goodRow]) s.db s.files

theorem ticks_keep_imported_beside_bad : twoFiles.db.Grows (ticked twoFiles).db ∧
    ∃ now db₁ db₂, importFile wholeEnv now db₁ goodFile = .done db₂ ∧
      db₂.Grows (ticked twoFiles).db := by
  have hrun : Ticks wholeEnv (.ok [goodRow]) 1 twoFiles (ticked twoFiles) :=
    .more 0 rfl (.none twoFiles) (.refl _)
  obtain ⟨hgrows, hleft⟩ := ticks_keep_imported hrun
  refine ⟨hgrows, hleft goodFile (by simp [twoFiles]) fun hmem => ?_⟩
  have hfiles : (ticked twoFiles).files = [badFile] := rfl
  rw [hfiles, List.mem_singleton] at hmem
  exact absurd (congrArg File.name hmem) (by decide)

theorem accounting_continues_beside_bad :
    (goodFile ∉ (ticked (ticked (ticked twoFiles))).files ∧
      AccountedFile wholeEnv (ticked (ticked (ticked twoFiles))).db goodFile) ∧
    Counted wholeEnv (ticked (ticked (ticked twoFiles))).db goodRow := by
  let _ := Classical.decPred (WellFormedFile wholeEnv.toFloats)
  have hgood : WellFormedFile wholeEnv.toFloats goodFile :=
    ⟨rfl, by decide, goodReport, rfl, ⟨rfl, rfl, trivial, trivial, trivial, trivial,
      fun k => by cases k <;> trivial, trivial, trivial⟩⟩
  have hrow : WellFormedRow wholeEnv.toFloats goodRow := by
    refine ⟨?_, trivial, fun k => by cases k <;> trivial, trivial, trivial, trivial⟩
    simp only [rowColumns, List.forall_mem_cons]
    exact ⟨rfl, trivial, trivial, trivial, trivial, trivial, fun _ h => absurd h List.not_mem_nil⟩
  have hfiles : ∀ f ∈ twoFiles.files, HarmlessFile wholeEnv.toFloats f := by
    simp only [twoFiles, List.forall_mem_cons]
    exact ⟨⟨fun h => by contradiction, trivial, trivial⟩, ⟨fun _ => ⟨_, rfl⟩, trivial, trivial⟩,
      fun _ h => absurd h List.not_mem_nil⟩
  have hrun : Ticks wholeEnv (.ok [goodRow]) 3 twoFiles (ticked (ticked (ticked twoFiles))) :=
    .more 0 rfl (.more 0 rfl (.more 0 rfl (.none twoFiles) (.refl _)) (.refl _)) (.refl _)
  obtain ⟨hreports, hrows⟩ := accounting_continues (fun _ _ h => by contradiction) hfiles
    (List.countP_le_length.trans_lt (by decide)) hrun (List.countP_le_length.trans_lt (by decide))
  exact ⟨hreports goodFile (by simp [twoFiles]) hgood,
    hrows [] goodRow [] rfl (by decide) (fun _ h => by contradiction) hrow⟩

end Openlia.Usage.Intake
