import Openlia.Shares.Recapture

/-! # The status of a share

A share is listed with a status that compares one revision. For a package this is the
revision of every file, for a workspace file only that of the file itself.
-/

namespace Openlia.Shares

open Lib Workspace
open Browser (trim)

/-! ## Revisions -/

section Revisions

variable (rt : Runtime) (services : Services)

/-- What the revision of a package is the hash of. -/
def compositeInput (files : List PackageFile) : Bytes :=
  files.flatMap fun f => utf8 f.path ++ [0] ++ utf8 (revision rt f.data) ++ [10]

/-- What is hashed for the revision of a target. -/
def hashed (w : World) (kind : ShareKind) (target : String) : List Bytes :=
  match kind with
  | .workspace => (fileBytes w.workspace target).toList
  | kind =>
      match packageFiles rt services w kind target with
      | .ok files => compositeInput rt files :: files.map (·.data)
      | .error _ => []

/-- What hashes and names are: no two hashed contents collide, a hash has no line end, and a
name has no NUL. -/
structure HashesTell (w₀ w₁ : World) (kind : ShareKind) (target : String) : Prop where
  injective : ∀ a ∈ hashed rt services w₀ kind target, ∀ b ∈ hashed rt services w₁ kind target,
    rt.sha256 a = rt.sha256 b → a = b
  line : ∀ contents, 10 ∉ utf8 (revision rt contents)
  names : ∀ w ∈ [w₀, w₁], ∀ files, packageFiles rt services w kind target = .ok files →
    ∀ f ∈ files, 0 ∉ utf8 f.path

end Revisions

section Comparing

variable {rt : Runtime} {services : Services} {w₀ w₁ : World} {kind : ShareKind} {target : String}

theorem revision_eq_iff {a b : Bytes} :
    revision rt a = revision rt b ↔ rt.sha256 a = rt.sha256 b := by
  unfold revision
  constructor
  · intro h
    have hlist := congrArg String.toList h
    rw [String.toList_append, String.toList_append] at hlist
    exact String.ext (List.append_cancel_left hlist)
  · exact fun h => h ▸ rfl

/-- What is before a separator, and what is after it. -/
theorem append_separator_inj {α : Type} {z : α} {xs ys us vs : List α} (hx : z ∉ xs) (hy : z ∉ ys)
    (h : xs ++ z :: us = ys ++ z :: vs) : xs = ys ∧ us = vs := by
  induction xs generalizing ys with
  | nil =>
      cases ys with
      | nil => exact ⟨rfl, (List.cons.inj h).2⟩
      | cons y ys => exact absurd ((List.cons.inj h).1 ▸ List.mem_cons_self) hy
  | cons x xs ih =>
      cases ys with
      | nil => exact absurd ((List.cons.inj h).1 ▸ List.mem_cons_self) hx
      | cons y ys =>
          obtain ⟨hxy, htail⟩ := List.cons.inj h
          obtain ⟨hxs, hus⟩ := ih (fun hmem => hx (List.mem_cons_of_mem _ hmem))
            (fun hmem => hy (List.mem_cons_of_mem _ hmem)) htail
          exact ⟨by rw [hxy, hxs], hus⟩

/-- The paths and revisions of the files can be read from what is hashed. -/
theorem compositeInput_inj {a b : List PackageFile}
    (hline : ∀ contents, 10 ∉ utf8 (revision rt contents)) (ha : ∀ f ∈ a, 0 ∉ utf8 f.path)
    (hb : ∀ f ∈ b, 0 ∉ utf8 f.path) (h : compositeInput rt a = compositeInput rt b) :
    a.map (fun f => (f.path, revision rt f.data)) =
      b.map fun f => (f.path, revision rt f.data) := by
  induction a generalizing b with
  | nil =>
      cases b with
      | nil => rfl
      | cons g bs => simp [compositeInput] at h
  | cons f as ih =>
      cases b with
      | nil => simp [compositeInput] at h
      | cons g bs =>
          simp only [compositeInput, List.flatMap_cons, List.append_assoc, List.cons_append,
            List.nil_append] at h
          obtain ⟨hpath, h⟩ := append_separator_inj (ha f List.mem_cons_self)
            (hb g List.mem_cons_self) h
          obtain ⟨hrevision, h⟩ := append_separator_inj (hline _) (hline _) h
          have hrest : compositeInput rt as = compositeInput rt bs := by
            simpa only [compositeInput, List.append_assoc, List.cons_append, List.nil_append]
              using h
          rw [List.map_cons, List.map_cons, utf8_injective hpath, utf8_injective hrevision,
            ih (fun x hx => ha x (List.mem_cons_of_mem _ hx))
              (fun x hx => hb x (List.mem_cons_of_mem _ hx)) hrest]

theorem files_of_revisions {a b : List PackageFile}
    (hinj : ∀ f ∈ a, ∀ g ∈ b, rt.sha256 f.data = rt.sha256 g.data → f.data = g.data)
    (h : a.map (fun f => (f.path, revision rt f.data)) =
      b.map fun f => (f.path, revision rt f.data)) :
    a = b := by
  induction a generalizing b with
  | nil => exact (List.map_eq_nil_iff.mp h.symm).symm
  | cons f as ih =>
      cases b with
      | nil => cases h
      | cons g bs =>
          simp only [List.map_cons, List.cons.injEq, Prod.mk.injEq] at h
          obtain ⟨⟨hpath, hrevision⟩, hrest⟩ := h
          have hdata := hinj f List.mem_cons_self g List.mem_cons_self
            (revision_eq_iff.mp hrevision)
          have hfile : f = g := by
            cases f
            cases g
            exact PackageFile.mk.injEq .. ▸ ⟨hpath, hdata⟩
          rw [hfile, ih (fun x hx y hy => hinj x (List.mem_cons_of_mem _ hx) y
            (List.mem_cons_of_mem _ hy)) hrest]

/-- Two packages have one revision only if they have the same files in one order. -/
theorem compositeRevision_inj (h : HashesTell rt services w₀ w₁ kind target)
    (hkind : kind ≠ .workspace) {files₀ files₁ : List PackageFile}
    (h₀ : packageFiles rt services w₀ kind target = .ok files₀)
    (h₁ : packageFiles rt services w₁ kind target = .ok files₁) :
    compositeRevision rt files₁ = compositeRevision rt files₀ ↔ files₁ = files₀ := by
  have hhashed₀ : hashed rt services w₀ kind target =
      compositeInput rt files₀ :: files₀.map (·.data) := by
    cases kind with
    | workspace => exact absurd rfl hkind
    | _ => simp only [hashed, h₀]
  have hhashed₁ : hashed rt services w₁ kind target =
      compositeInput rt files₁ :: files₁.map (·.data) := by
    cases kind with
    | workspace => exact absurd rfl hkind
    | _ => simp only [hashed, h₁]
  have hinj := h.injective
  rw [hhashed₀, hhashed₁] at hinj
  constructor
  · intro heq
    have hhash : rt.sha256 (compositeInput rt files₀) = rt.sha256 (compositeInput rt files₁) :=
      (revision_eq_iff.mp heq).symm
    have hinput := hinj _ List.mem_cons_self _ List.mem_cons_self hhash
    refine (files_of_revisions ?_ (compositeInput_inj h.line (h.names w₀ (by simp) _ h₀)
      (h.names w₁ (by simp) _ h₁) hinput)).symm
    intro f hf g hg hsha
    exact hinj _ (List.mem_cons_of_mem _ (List.mem_map_of_mem hf)) _
      (List.mem_cons_of_mem _ (List.mem_map_of_mem hg)) hsha
  · exact fun heq => heq ▸ rfl

end Comparing

/-! ## Storing again -/

/-- The path of a stored file and its content in either column. -/
def ShareFileRow.columns (f : ShareFileRow) : String × Option String × Option Bytes :=
  (f.path, f.content_text, f.content_blob)

/-- Capturing the share again stores the same paths with the same contents. -/
def StoresSame (rt : Runtime) (limits : Limits) (services : Services) (w : World) (nowMs : Nat)
    (id : String) (s : ShareStore) : Prop :=
  ∃ summary s', syncShare rt limits services w nowMs id none s = .ok summary s' ∧
    ∀ x, x ∈ (s'.filesOf id).map (·.columns) ↔ x ∈ (s.filesOf id).map (·.columns)

section Storing

variable {rt : Runtime} {limits : Limits} {services : Services} {w : World} {nowMs : Nat}
  {id : String} {s s' : ShareStore} {row : ShareRow}

theorem row_columns (files : List CapturedShareFile) :
    (files.map (fileRow id)).map (·.columns) = files.map (·.columns) := by
  rw [List.map_map]
  rfl

theorem insertFiles_isSome {rows : List ShareFileRow} : (∃ s', s.insertFiles rows = some s') ↔
    ((s.files.rows ++ rows).map fun f => (f.share_id, f.path)).Nodup := by
  induction rows generalizing s with
  | nil =>
      rw [List.append_nil]
      exact iff_of_true ⟨s, rfl⟩ s.files.keys_nodup
  | cons row rows ih =>
      rw [ShareStore.insertFiles]
      cases hins : s.files.insert row with
      | none =>
          simp only [reduceCtorEq, exists_false, false_iff]
          intro hnodup
          have hsome : ∃ files, s.files.insert row = some files := by
            refine Table.insert_isSome.mpr fun r hr hkey => ?_
            rw [List.map_append, List.map_cons, List.nodup_append] at hnodup
            exact hnodup.2.2 _ (List.mem_map_of_mem hr) _ List.mem_cons_self hkey
          obtain ⟨files, hfiles⟩ := hsome
          rw [hins] at hfiles
          cases hfiles
      | some files =>
          have hrows : files.rows = s.files.rows ++ [row] := by
            unfold Table.insert at hins
            split at hins
            · cases hins
            · cases hins
              rfl
          dsimp only
          rw [ih]
          dsimp only
          rw [hrows, List.append_assoc]
          rfl

/-- The files of a share without files can be stored where no two have one path. -/
theorem insertFiles_iff {files : List CapturedShareFile} (hnone : s.filesOf id = []) :
    (∃ s', s.insertFiles (files.map (fileRow id)) = some s') ↔ (files.map (·.path)).Nodup := by
  have hnew : (files.map (fileRow id)).map (fun f => (f.share_id, f.path)) =
      (files.map (·.path)).map fun path => (id, path) := by
    rw [List.map_map, List.map_map]
    rfl
  rw [insertFiles_isSome, List.map_append, hnew, List.nodup_append]
  constructor
  · rintro ⟨-, hnodup, -⟩
    exact hnodup.of_map _
  · intro hnodup
    refine ⟨s.files.keys_nodup, hnodup.map fun a b h => (Prod.mk.inj h).2, ?_⟩
    rintro a ha b hb rfl
    obtain ⟨f, hf, rfl⟩ := List.mem_map.mp ha
    obtain ⟨path, -, hkey⟩ := List.mem_map.mp hb
    have hmem := ShareStore.mem_filesOf.mpr ⟨hf, (Prod.mk.inj hkey).1.symm⟩
    rw [hnone] at hmem
    cases hmem

/-- The share is captured again with the files of a new capture. -/
theorem storesSame_iff {files : List CapturedShareFile}
    (hget : (pruned nowMs s).shares.get id = some row)
    (hfiles : s.filesOf id = files.map (fileRow id)) :
    StoresSame rt limits services w nowMs id s ↔
      ∃ snapshot, capture rt limits services w row.kind row.target_path = .ok snapshot ∧
        (snapshot.files.map (·.path)).Nodup ∧ SameFiles snapshot.files files := by
  have hnone : ∀ snapshot : CapturedSnapshot, ({ pruned nowMs s with
      shares := (pruned nowMs s).shares.update (fun r => r.id == id)
        (fun r => r.synced snapshot nowMs none) fun _ => rfl }.deleteFiles id).filesOf id = [] :=
    fun _ => ShareStore.filesOf_deleteFiles_self
  unfold StoresSame
  rw [hfiles, row_columns]
  constructor
  · rintro ⟨summary, s', hsync, hsame⟩
    rcases @sync_cases rt limits services w nowMs s id none with
      ⟨e, he⟩ | ⟨existing, snapshot, s₁, hexisting, hcapture, hresynced, hok⟩
    · rw [he] at hsync
      cases hsync
    · rw [hok] at hsync
      obtain ⟨-, rfl⟩ := EStateM.Result.ok.inj hsync
      obtain rfl := Option.some.inj (hexisting.symm.trans hget)
      refine ⟨snapshot, hcapture, (insertFiles_iff (hnone snapshot)).mp ⟨_, hresynced⟩, ?_⟩
      rw [ShareStore.filesOf_insert_self hresynced (fun f hf => ?_) (hnone snapshot),
        row_columns] at hsame
      · exact hsame
      · obtain ⟨file, -, rfl⟩ := List.mem_map.mp hf
        rfl
  · rintro ⟨snapshot, hcapture, hnodup, hsame⟩
    obtain ⟨s', hresynced⟩ := (insertFiles_iff (hnone snapshot)).mpr hnodup
    refine ⟨_, s', sync_runs hget hcapture hresynced, ?_⟩
    rw [ShareStore.filesOf_insert_self hresynced (fun f hf => ?_) (hnone snapshot), row_columns]
    · exact hsame
    · obtain ⟨file, -, rfl⟩ := List.mem_map.mp hf
      rfl

end Storing

/-! ## Targets -/

/-- The packages of a store have valid targets. -/
def TargetsValid (s : ShareStore) : Prop :=
  ∀ r ∈ s.shares.rows, r.kind ≠ .workspace → ValidTarget r.kind r.target_path

section Targets

variable {s s' : ShareStore}

theorem pruned_subset {nowMs : Nat} : (pruned nowMs s).shares.rows ⊆ s.shares.rows := by
  have hfold : ∀ (rows : List ShareRow) (s : ShareStore),
      (rows.foldl (fun s row => s.deleteShare row.id) s).shares.rows ⊆ s.shares.rows := by
    intro rows
    induction rows with
    | nil => exact fun _ _ h => h
    | cons row rows ih => exact fun s r hr => (Table.mem_delete.mp (ih _ hr)).1
  exact hfold _ s

theorem TargetsValid.update (h : TargetsValid s) (p : ShareRow → Bool) (f : ShareRow → ShareRow)
    (hf : ∀ r, (f r).id = r.id) (hkind : ∀ r, (f r).kind = r.kind)
    (htarget : ∀ r, (f r).target_path = r.target_path) :
    TargetsValid { s with shares := s.shares.update p f hf } := by
  intro r hr hne
  obtain ⟨old, hold, rfl⟩ := (@Table.mem_update _ _ _ s.shares p f hf _).mp hr
  split_ifs at hne ⊢
  · rw [hkind] at hne ⊢
    rw [htarget]
    exact h old hold hne
  · exact h old hold hne

theorem targets_preserved (rt : Runtime) (limits : Limits) (services : Services) (op : ShareOp) :
    Preserved rt limits services op TargetsValid where
  prune _ _ h r hr hne := h r (pruned_subset hr) hne
  same _ _ hsame h r hr hne := h r (hsame.1 ▸ hr) hne
  make id w kind target nowMs preset snapshot s s' _ hcapture hinserted h := by
    obtain ⟨shares, hshares, hfiles⟩ := hinserted
    intro r hr hne
    rw [(ShareStore.insertFiles_some hfiles).1] at hr
    rcases (Table.mem_insert hshares).mp hr with hold | rfl
    · exact h r hold hne
    · have hne : snapshot.kind ≠ .workspace := hne
      have hvalid : ValidTarget snapshot.kind snapshot.targetPath := by
        rw [capture_kind hcapture] at hne ⊢
        exact capture_target hne hcapture
      exact hvalid
  sync id _ snapshot nowMs expiresIn s _ _ _ hresynced h := by
    have hshares := h.update (fun r => r.id == id) (fun r => r.synced snapshot nowMs expiresIn)
      (fun _ => rfl) (fun _ => rfl) fun _ => rfl
    intro r hr hne
    rw [(ShareStore.insertFiles_some hresynced).1] at hr
    exact hshares r hr hne
  renew id preset nowMs _ h :=
    h.update (fun r => r.id == id) (renewed preset nowMs) (fun _ => rfl) (fun _ => rfl) fun _ => rfl
  delete id _ _ h r hr hne := h r (Table.mem_delete.mp hr).1 hne

theorem targets_run {rt : Runtime} {limits : Limits} {services : Services} {lookups : LookupLimits}
    {taken : List (Taken ShareStore ShareOp)}
    (h : Run (Serves rt limits services lookups) ShareStore.empty taken s) : TargetsValid s :=
  Preserved.run (C := fun _ => True) (fun op _ => targets_preserved rt limits services op)
    (fun _ hr => absurd hr List.not_mem_nil) h fun _ _ => trivial

end Targets

/-! ## What was captured last -/

/-- The share has what a capture of its target has in a world. -/
structure CapturedIn (rt : Runtime) (limits : Limits) (services : Services) (w : World)
    (row : ShareRow) (files : List ShareFileRow) : Prop where
  target : row.kind ≠ .workspace → ValidTarget row.kind row.target_path
  captured : ValidTarget row.kind row.target_path → ∃ snapshot,
    capture rt limits services w row.kind row.target_path = .ok snapshot ∧
      (snapshot.files.map (·.path)).Nodup ∧ snapshot.snapshotRevision = row.snapshot_revision ∧
      files = snapshot.files.map (fileRow row.id)

section LastCapture

variable {rt : Runtime} {limits : Limits} {services : Services} {w : World} {nowMs : Nat}
  {id : String} {s s' : ShareStore} {summary : ShareSummary}

/-- A capture of a target is one of the target that is stored. -/
theorem capture_again {kind : ShareKind} {raw : String} {snapshot : CapturedSnapshot}
    (h : capture rt limits services w kind raw = .ok snapshot)
    (htarget : ValidTarget kind snapshot.targetPath) :
    capture rt limits services w kind snapshot.targetPath = .ok snapshot := by
  cases kind with
  | workspace =>
      rw [capture] at h ⊢
      obtain ⟨_, _, _, _, _, htargetPath, _⟩ := captureWorkspace_ok h
      have hclean : cleanTarget snapshot.targetPath = cleanTarget raw := by
        rw [← htargetPath]
        exact htarget
      unfold captureWorkspaceSnapshot at h ⊢
      rw [hclean]
      exact h
  | skill =>
      unfold capture captureSkillSnapshot at h
      obtain ⟨skillId, hid, h⟩ := except_bind_ok h
      have hskill : snapshot.targetPath = skillId := by
        obtain ⟨skill, -, h⟩ := except_bind_ok h
        obtain ⟨files, -, h⟩ := except_bind_ok h
        rw [← Except.ok.inj h]
        rfl
      have hvalid : validateSkillId snapshot.targetPath = .ok snapshot.targetPath := htarget
      unfold capture captureSkillSnapshot
      rw [hvalid, ok_bind, hskill]
      exact h
  | feature =>
      unfold capture captureFeatureSnapshot at h
      obtain ⟨featureId, hid, h⟩ := except_bind_ok h
      have hfeature : snapshot.targetPath = featureId := by
        obtain ⟨captured, -, h⟩ := except_bind_ok h
        obtain ⟨-, -, h⟩ := except_bind_ok h
        rw [← Except.ok.inj h]
        rfl
      have hvalid : validateFeatureId snapshot.targetPath = .ok snapshot.targetPath := htarget
      unfold capture captureFeatureSnapshot
      rw [hvalid, ok_bind, hfeature]
      exact h

theorem create_capturedIn (hs : Owned s) {request : ShareCreateRequest}
    (h : createShare rt limits services w nowMs id request s = .ok summary s') :
    summary.row.id = id ∧ Kept summary.row (s'.filesOf id) s' ∧
      CapturedIn rt limits services w summary.row (s'.filesOf id) := by
  obtain ⟨kind, raw, snapshot, hcapture, hstores⟩ := create_stores hs h
  have hkind := capture_kind hcapture
  refine ⟨hstores.id_eq, hstores.kept, ⟨fun hne => ?_, fun htarget => ⟨snapshot, ?_, ?_⟩⟩⟩
  · rw [hstores.kind, hkind] at hne
    rw [hstores.kind, hstores.target_path, hkind]
    exact capture_target hne hcapture
  · rw [hstores.kind, hstores.target_path, hkind] at htarget ⊢
    exact capture_again hcapture htarget
  · refine ⟨hstores.nodup, hstores.revision.symm, ?_⟩
    rw [hstores.id_eq]
    exact hstores.files

theorem sync_capturedIn (hs : TargetsValid s) {expiresIn : Option String}
    (h : syncShare rt limits services w nowMs id expiresIn s = .ok summary s') :
    summary.row.id = id ∧ Kept summary.row (s'.filesOf id) s' ∧
      CapturedIn rt limits services w summary.row (s'.filesOf id) := by
  obtain ⟨existing, snapshot, hget, hcapture, hrow, hkeep, hfiles⟩ := sync_stores h
  obtain ⟨hmem, hid⟩ := Table.get_eq_some_iff.mp hget
  have hrowid : summary.row.id = id := by
    rw [hrow]
    exact hid
  have hstored : Stores id summary.row
      { snapshot with kind := summary.row.kind, targetPath := summary.row.target_path } s' :=
    ⟨hrowid, hkeep, rfl, rfl, by rw [hrow]; rfl, hfiles⟩
  refine ⟨hrowid, hstored.kept, ⟨fun hne => ?_, fun _ => ⟨snapshot, ?_, hstored.nodup, ?_, ?_⟩⟩⟩
  · rw [hrow] at hne ⊢
    exact hs existing (pruned_subset hmem) hne
  · rw [hrow]
    exact hcapture
  · rw [hrow]
    rfl
  · rw [hrowid]
    exact hfiles

end LastCapture

/-! ## The status -/

/-- A change since the capture is one of the revision exactly where it is one of the files:
a workspace file that is the same reaches the same files, and nothing else than marks or an
order makes a difference. -/
def Noticed (rt : Runtime) (limits : Limits) (services : Services) (w₀ w₁ : World) :
    ShareKind → String → Prop
  | .workspace, target => ∀ bytes₀ bytes₁,
      download rt limits w₀.workspace target = .ok bytes₀ →
      download rt limits w₁.workspace target = .ok bytes₁ →
        if bytes₁ = bytes₀ then
          SameReached rt limits target w₁.workspace w₀.workspace bytes₁ bytes₀ ∧
            Fits rt limits w₁.workspace target bytes₁
        else
          ¬ (SameText rt limits target bytes₁ bytes₀ ∧
            SameReached rt limits target w₁.workspace w₀.workspace bytes₁ bytes₀ ∧
            Fits rt limits w₁.workspace target bytes₁)
  | kind, target => ∀ files₀ files₁,
      packageFiles rt services w₀ kind target = .ok files₀ →
      packageFiles rt services w₁ kind target = .ok files₁ →
        files₁ = files₀ ∨ ¬ ((files₁.map (·.data.length)).sum ≤ limits.maxDownloadBytes ∧
          (files₁.map (·.path)).Nodup ∧ SameButMarks limits files₁ files₀)

section Listing

variable {rt : Runtime} {limits : Limits} {services : Services} {lookups : LookupLimits}
  {w w₀ w₁ : World} {nowMs captureMs : Nat} {id : String} {s s' s'' listed : ShareStore}
  {row : ShareRow} {captured summary : ShareSummary} {summaries : List ShareSummary}

theorem summary_row (row : ShareRow) : (toShareSummary rt limits services w row).row = row := by
  unfold toShareSummary
  split <;> rfl

theorem up_to_date_iff : (toShareSummary rt limits services w row).status = .up_to_date ↔
    currentRevision rt limits services w row.kind row.target_path = some row.snapshot_revision := by
  unfold toShareSummary
  cases currentRevision rt limits services w row.kind row.target_path with
  | none => simp
  | some current =>
      by_cases hcurrent : current = row.snapshot_revision
      · simp [hcurrent]
      · simp [hcurrent]

theorem listed_row {kind targetPath : Option String}
    (h : listShares rt limits services w nowMs kind targetPath s = .ok summaries listed)
    (hmem : summary ∈ summaries) :
    ∃ row, (pruned nowMs s).shares.get row.id = some row ∧
      summary = toShareSummary rt limits services w row := by
  unfold listShares at h
  rw [prune_bind, get_bind, pure_run] at h
  obtain ⟨rfl, -⟩ := EStateM.Result.ok.inj h
  obtain ⟨row, hrow, rfl⟩ := List.mem_map.mp hmem
  have hselected := Table.mem_select.mp (List.mem_mergeSort.mp hrow)
  exact ⟨row, Table.get_of_mem hselected.1, rfl⟩

theorem noticed_package {kind : ShareKind} {target : String} {files₀ files₁ : List PackageFile}
    (hkind : kind ≠ .workspace) (h₀ : packageFiles rt services w₀ kind target = .ok files₀)
    (h₁ : packageFiles rt services w₁ kind target = .ok files₁) :
    Noticed rt limits services w₀ w₁ kind target ↔
      files₁ = files₀ ∨ ¬ ((files₁.map (·.data.length)).sum ≤ limits.maxDownloadBytes ∧
        (files₁.map (·.path)).Nodup ∧ SameButMarks limits files₁ files₀) := by
  cases kind with
  | workspace => exact absurd rfl hkind
  | skill => simp [Noticed, h₀, h₁]
  | feature => simp [Noticed, h₀, h₁]

/-- Nothing is missed where the package cannot be read. -/
theorem noticed_missing {kind : ShareKind} {target : String} {e : WorkspaceError}
    (hkind : kind ≠ .workspace) (h₁ : packageFiles rt services w₁ kind target = .error e) :
    Noticed rt limits services w₀ w₁ kind target := by
  cases kind with
  | workspace => exact absurd rfl hkind
  | skill => simp [Noticed, h₁]
  | feature => simp [Noticed, h₁]

theorem SameButMarks.refl (files : List PackageFile) : SameButMarks limits files files :=
  ⟨fun a ha => ⟨a, ha, rfl, .inl rfl⟩, fun b hb => ⟨b, hb, rfl, .inl rfl⟩⟩

/-- The status of a package compares every file. -/
theorem package_honest_iff {kind : ShareKind} {target : String} {snapshot : CapturedSnapshot}
    (hkind : kind ≠ .workspace) (htarget : ValidTarget kind target)
    (htells : HashesTell rt services w₀ w₁ kind target)
    (h : capture rt limits services w₀ kind target = .ok snapshot)
    (hnodup : (snapshot.files.map (·.path)).Nodup) :
    (currentRevision rt limits services w₁ kind target = some snapshot.snapshotRevision ↔
        ∃ again, capture rt limits services w₁ kind target = .ok again ∧
          (again.files.map (·.path)).Nodup ∧ SameFiles again.files snapshot.files) ↔
      Noticed rt limits services w₀ w₁ kind target := by
  obtain ⟨-, files₀, hfiles₀, hrevision, hstored⟩ := capturePackage_ok hkind h
  rw [capture_valid hkind htarget h] at hfiles₀
  have hfits₀ : (files₀.map (·.data.length)).sum ≤ limits.maxDownloadBytes := by
    obtain ⟨files, hfiles, hfits, -⟩ :=
      (capturePackage_iff hkind htarget (P := fun _ => True)).mp ⟨snapshot, h, trivial⟩
    rw [hfiles₀] at hfiles
    rw [Except.ok.inj hfiles]
    exact hfits
  have hpaths : ∀ files : List PackageFile,
      (files.map (packageFile rt limits)).map (·.path) = files.map (·.path) := by
    intro files
    rw [List.map_map]
    exact List.map_congr_left fun f _ => (packageFile_holds f).1
  rw [hstored, hpaths] at hnodup
  rw [hrevision, hstored, currentRevision_package hkind htarget,
    capturePackage_iff hkind htarget (P := fun files => (files.map (·.path)).Nodup ∧
      SameFiles files (files₀.map (packageFile rt limits)))]
  simp only [hpaths, sameFiles_package_iff]
  cases hfiles₁ : packageFiles rt services w₁ kind target with
  | error e => simp [noticed_missing hkind hfiles₁]
  | ok files₁ =>
      have hsame := compositeRevision_inj htells hkind hfiles₀ hfiles₁
      rw [noticed_package hkind hfiles₀ hfiles₁]
      simp only [Except.ok.injEq, exists_eq_left', hsame]
      constructor
      · intro honest
        by_cases heq : files₁ = files₀
        · exact .inl heq
        · exact .inr fun hstores => heq (honest.mpr hstores)
      · rintro (rfl | hdiffer)
        · exact iff_of_true rfl ⟨hfits₀, hnodup, SameButMarks.refl files₁⟩
        · refine iff_of_false (fun heq => hdiffer ?_) hdiffer
          subst heq
          exact ⟨hfits₀, hnodup, SameButMarks.refl files₁⟩

theorem currentRevision_workspace {target revisionText : String}
    (hallowed : ¬ (isMemoryDocument target = true ∨ protectedPath rt target = true)) :
    currentRevision rt limits services w .workspace target = some revisionText ↔
      ∃ bytes, download rt limits w.workspace target = .ok bytes ∧
        revision rt bytes = revisionText := by
  rw [currentRevision, computeLiveWorkspaceRevision, if_neg]
  · cases download rt limits w.workspace target with
    | error e => simp
    | ok bytes => simp
  · rw [Bool.or_eq_true]
    exact fun h => hallowed h.symm

/-- The status of a workspace file compares the file itself. -/
theorem workspace_honest_iff {target : String} {snapshot : CapturedSnapshot}
    (htarget : cleanTarget target = target)
    (htells : HashesTell rt services w₀ w₁ .workspace target)
    (h : captureWorkspaceSnapshot rt limits w₀.workspace target = .ok snapshot) :
    (currentRevision rt limits services w₁ .workspace target = some snapshot.snapshotRevision ↔
        ∃ again, captureWorkspaceSnapshot rt limits w₁.workspace target = .ok again ∧
          (again.files.map (·.path)).Nodup ∧ SameFiles again.files snapshot.files) ↔
      Noticed rt limits services w₀ w₁ .workspace target := by
  have hallowed := captureWorkspace_allowed h
  rw [htarget] at hallowed
  obtain ⟨bytes₀, hbytes₀, -, -, -, -, hrevision⟩ := captureWorkspace_ok h
  have hagain := @recapture_workspace_iff rt limits w₁.workspace w₀.workspace _ _ _ h hbytes₀
  rw [htarget] at hbytes₀ hagain
  rw [hrevision, currentRevision_workspace fun hor => hallowed (.inr hor), hagain]
  cases hbytes₁ : download rt limits w₁.workspace target with
  | error e => simp [Noticed, hbytes₁]
  | ok bytes₁ =>
      have hhash : revision rt bytes₁ = revision rt bytes₀ ↔ bytes₁ = bytes₀ := by
        constructor
        · intro heq
          refine (htells.injective bytes₀ ?_ bytes₁ ?_ (revision_eq_iff.mp heq).symm).symm
          · rw [hashed, regularFile_bytes (download_ok hbytes₀).1]
            exact List.mem_singleton_self _
          · rw [hashed, regularFile_bytes (download_ok hbytes₁).1]
            exact List.mem_singleton_self _
        · exact fun heq => heq ▸ rfl
      simp only [Noticed, hbytes₀, hbytes₁, Except.ok.injEq, exists_eq_left', hhash]
      by_cases heq : bytes₁ = bytes₀
      · simp [heq, SameText]
      · simp [heq]

end Listing

/-! ## An included file that changes -/

def listPlain : ShareAction (List ShareSummary) :=
  listShares plainRuntime defaultLimits noServices (notesWorld [0x61]) 1 none none

theorem plain_tells : HashesTell plainRuntime noServices (notesWorld [0x61]) (notesWorld [0x61])
    .workspace "notes.md" where
  injective a ha b hb _ := by
    have hhashed : hashed plainRuntime noServices (notesWorld [0x61]) .workspace "notes.md" =
        [[0x61]] := by decide +kernel
    rw [hhashed, List.mem_singleton] at ha hb
    rw [ha, hb]
  line contents := by
    have hplain : revision plainRuntime contents = revision plainRuntime [] := rfl
    rw [hplain]
    decide +kernel
  names w _ files h f hf := by
    obtain rfl := Except.ok.inj h
    cases hf

def ledgerBytes : Bytes := utf8 "include other.journal"

def ledgerRuntime : Runtime :=
  asciiRuntime fun bytes =>
    if bytes = ledgerBytes then "cdd9bba04e18c8aabc922874cf96fbe9c595acf57508a3e5e3ece1f6a3e86e28"
    else if bytes = [0x61] then "ca978112ca1bbdcafac231b39a23dc4da786eff8147c4e72b9807785afee48bb"
    else "3e23e8160039594a33894f6564e1b1348bbd7a0088d42c4acb73eeaed59c009d"

/-- A ledger and the file that it includes. -/
def ledgerWorld (other : Bytes) : World :=
  workspaceOnly (diskOf [("main.journal", ledgerBytes), ("other.journal", other)])

/-- The store after the ledger was shared. -/
def ledgerStore : ShareStore :=
  after (createShare ledgerRuntime defaultLimits noServices (ledgerWorld [0x61]) 0 "share"
    ⟨some "workspace", some "main.journal", none⟩) ShareStore.empty

end Openlia.Shares
