import Openlia.Lib.Runs
import Openlia.Shares.Service

/-! # What stays stored

A share keeps what it captured until it is captured again or goes: no request for another
share touches its rows.
-/

namespace Openlia.Shares

open Lib Workspace
open Browser (trim)

/-! ## Rows of the tables -/

/-- The store without the shares that expired. -/
def pruned (nowMs : Nat) (s : ShareStore) : ShareStore :=
  (s.shares.select (expired nowMs)).foldl (fun s row => s.deleteShare row.id) s

namespace ShareStore

variable {s s' : ShareStore} {id other : String} {f : ShareFileRow}

theorem mem_filesOf : f ∈ s.filesOf id ↔ f ∈ s.files.rows ∧ f.share_id = id := by
  simp [filesOf, Table.mem_select]

theorem get_deleteShare (h : other ≠ id) :
    (s.deleteShare other).shares.get id = s.shares.get id := by
  refine Option.ext fun row => ?_
  simp only [deleteShare, Table.get_eq_some_iff, Table.mem_delete, beq_eq_false_iff_ne]
  constructor
  · exact fun h => ⟨h.1.1, h.2⟩
  · rintro ⟨hrow, rfl⟩
    exact ⟨⟨hrow, h.symm⟩, rfl⟩

theorem get_deleteShare_self : (s.deleteShare id).shares.get id = none := by
  rw [Option.eq_none_iff_forall_not_mem]
  intro row hrow
  simp only [deleteShare, Option.mem_def, Table.get_eq_some_iff, Table.mem_delete,
    beq_eq_false_iff_ne] at hrow
  exact hrow.1.2 hrow.2

theorem filesOf_deleteFiles (h : other ≠ id) : (s.deleteFiles other).filesOf id = s.filesOf id := by
  simp only [filesOf, Table.select, deleteFiles, Table.delete, List.filter_filter]
  refine List.filter_congr fun f _ => ?_
  by_cases hf : f.share_id = id
  · simp [hf, h.symm]
  · simp [hf]

theorem filesOf_deleteFiles_self : (s.deleteFiles id).filesOf id = [] := by
  simp only [filesOf, Table.select, deleteFiles, Table.delete, List.filter_filter]
  refine List.filter_eq_nil_iff.mpr fun f _ => ?_
  cases f.share_id == id <;> simp

theorem filesOf_deleteShare (h : other ≠ id) : (s.deleteShare other).filesOf id = s.filesOf id :=
  filesOf_deleteFiles h

/-- The files that are inserted, after those that were there. -/
theorem insertFiles_some {rows : List ShareFileRow} (h : s.insertFiles rows = some s') :
    s'.shares = s.shares ∧ s'.files.rows = s.files.rows ++ rows := by
  induction rows generalizing s with
  | nil =>
      cases h
      simp
  | cons row rows ih =>
      rw [insertFiles] at h
      cases hins : s.files.insert row with
      | none => simp [hins] at h
      | some files =>
          rw [hins] at h
          obtain ⟨hshares, hfiles⟩ := ih h
          refine ⟨hshares, ?_⟩
          have hrows : files.rows = s.files.rows ++ [row] := by
            unfold Table.insert at hins
            split at hins
            · cases hins
            · cases hins
              rfl
          rw [hfiles, hrows, List.append_assoc]
          rfl

theorem filesOf_insertFiles {rows : List ShareFileRow} (h : s.insertFiles rows = some s') :
    s'.filesOf id = s.filesOf id ++ rows.filter (·.share_id == id) := by
  simp [filesOf, Table.select, (insertFiles_some h).2]

theorem filesOf_insert_other {rows : List ShareFileRow} (h : s.insertFiles rows = some s')
    (hrows : ∀ f ∈ rows, f.share_id = other) (hne : other ≠ id) :
    s'.filesOf id = s.filesOf id := by
  rw [filesOf_insertFiles h, List.filter_eq_nil_iff.mpr, List.append_nil]
  intro f hf
  simp [hrows f hf, hne]

theorem filesOf_insert_self {rows : List ShareFileRow} (h : s.insertFiles rows = some s')
    (hrows : ∀ f ∈ rows, f.share_id = id) (hnone : s.filesOf id = []) : s'.filesOf id = rows := by
  rw [filesOf_insertFiles h, hnone, List.nil_append, List.filter_eq_self]
  intro f hf
  simp [hrows f hf]

end ShareStore

/-! ## Pruning -/

section Pruned

variable {s : ShareStore} {nowMs : Nat} {id : String}

theorem delete_all_filesOf {rows : List ShareRow} (h : ∀ r ∈ rows, r.id ≠ id) (s : ShareStore) :
    (rows.foldl (fun s row => s.deleteShare row.id) s).shares.get id = s.shares.get id ∧
      (rows.foldl (fun s row => s.deleteShare row.id) s).filesOf id = s.filesOf id := by
  induction rows generalizing s with
  | nil => exact ⟨rfl, rfl⟩
  | cons row rows ih =>
      obtain ⟨hget, hfiles⟩ :=
        ih (fun r hr => h r (List.mem_cons_of_mem _ hr)) (s.deleteShare row.id)
      have hne := h row List.mem_cons_self
      rw [List.foldl_cons, hget, hfiles]
      exact ⟨ShareStore.get_deleteShare hne, ShareStore.filesOf_deleteShare hne⟩

theorem delete_all_none {rows : List ShareRow} (s : ShareStore)
    (h : s.shares.get id = none ∨ ∃ r ∈ rows, r.id = id) :
    (rows.foldl (fun s row => s.deleteShare row.id) s).shares.get id = none := by
  induction rows generalizing s with
  | nil => exact h.resolve_right fun ⟨r, hr, _⟩ => nomatch hr
  | cons row rows ih =>
      rw [List.foldl_cons]
      refine ih (s.deleteShare row.id) ?_
      by_cases hid : row.id = id
      · rw [hid]
        exact .inl ShareStore.get_deleteShare_self
      · rw [ShareStore.get_deleteShare hid]
        refine h.imp_right fun ⟨r, hr, hrid⟩ => ?_
        rcases List.mem_cons.mp hr with rfl | hr
        · exact absurd hrid hid
        · exact ⟨r, hr, hrid⟩

/-- A share is pruned with its files, or not touched. -/
theorem pruned_cases (s : ShareStore) (nowMs : Nat) (id : String) :
    (pruned nowMs s).shares.get id = none ∨
      (pruned nowMs s).shares.get id = s.shares.get id ∧
        (pruned nowMs s).filesOf id = s.filesOf id ∧ ∀ r ∈ s.shares.get id, expired nowMs r = false := by
  by_cases h : ∃ r ∈ s.shares.select (expired nowMs), r.id = id
  · exact .inl (delete_all_none s (.inr h))
  · have hne : ∀ r ∈ s.shares.select (expired nowMs), r.id ≠ id := fun r hr hid => h ⟨r, hr, hid⟩
    obtain ⟨hget, hfiles⟩ := delete_all_filesOf hne s
    refine .inr ⟨hget, hfiles, fun r hr => ?_⟩
    obtain ⟨hmem, hid⟩ := Table.get_eq_some_iff.mp hr
    by_contra hexpired
    exact hne r (Table.mem_select.mpr ⟨hmem, by simpa using hexpired⟩) hid

/-! ## Running an action -/

section Running

variable {α : Type}

theorem prune_bind (k : Nat → ShareAction α) (s : ShareStore) :
    (pruneExpired nowMs >>= k) s = k (s.shares.select (expired nowMs)).length (pruned nowMs s) :=
  rfl

theorem get_bind (k : ShareStore → ShareAction α) (s : ShareStore) : (get >>= k) s = k s s := rfl

theorem pure_run (a : α) (s : ShareStore) : (pure a : ShareAction α) s = .ok a s := rfl

end Running

end Pruned

/-! ## What each operation does -/

section Operations

variable {rt : Runtime} {limits : Limits} {services : Services} {w : World} {nowMs : Nat}
  {id : String} {s : ShareStore}

/-- A share as it is made from a snapshot. -/
def newRow (id : String) (nowMs : Nat) (preset : String) (snapshot : CapturedSnapshot) : ShareRow :=
  ⟨id, snapshot.kind, snapshot.targetPath, snapshot.title, nowMs, nowMs,
    computeExpiration preset nowMs, preset, snapshot.snapshotRevision, snapshot.files.length,
    snapshot.totalBytes, snapshot.mediaType, snapshot.metadataJson⟩

/-- The store with a share and its files. -/
def Inserted (id : String) (row : ShareRow) (snapshot : CapturedSnapshot) (s s' : ShareStore) :
    Prop :=
  ∃ shares, s.shares.insert row = some shares ∧
    { s with shares := shares }.insertFiles (snapshot.files.map (fileRow id)) = some s'

theorem create_cases (request : ShareCreateRequest) :
    (∃ e, createShare rt limits services w nowMs id request s = .error e (pruned nowMs s)) ∨
      ∃ kind targetPath preset snapshot s', request.kind.bind kindOf = some kind ∧
        request.target_path = some targetPath ∧
        capture rt limits services w kind targetPath = .ok snapshot ∧
        Inserted id (newRow id nowMs preset snapshot) snapshot (pruned nowMs s) s' ∧
        createShare rt limits services w nowMs id request s =
          .ok (toShareSummary rt limits services w (newRow id nowMs preset snapshot)) s' := by
  unfold createShare
  rw [prune_bind]
  dsimp only
  cases hkind : request.kind.bind kindOf with
  | none => exact .inl ⟨_, rfl⟩
  | some kind =>
      cases htarget : request.target_path.filter (trim · ≠ "") with
      | none => exact .inl ⟨_, rfl⟩
      | some targetPath =>
          by_cases hpreset : validPreset (request.expires_in.getD "30d") = false
          · simp only [if_pos hpreset]
            exact .inl ⟨_, rfl⟩
          simp only [if_neg hpreset]
          cases hcapture : capture rt limits services w kind targetPath with
          | error e => exact .inl ⟨_, rfl⟩
          | ok snapshot =>
              dsimp only
              rw [get_bind]
              cases hinsert : ((pruned nowMs s).shares.insert (newRow id nowMs
                  (request.expires_in.getD "30d") snapshot)).bind fun shares =>
                  { pruned nowMs s with shares := shares }.insertFiles
                    (snapshot.files.map (fileRow id)) with
              | none =>
                  refine .inl ⟨constraintFailed, ?_⟩
                  simp only [newRow] at hinsert
                  rw [hinsert]
                  rfl
              | some s' =>
                  obtain ⟨shares, hshares, hfiles⟩ := Option.bind_eq_some_iff.mp hinsert
                  refine .inr ⟨kind, targetPath, _, snapshot, s', rfl,
                    (Option.filter_eq_some_iff.mp htarget).1, hcapture,
                    ⟨shares, hshares, hfiles⟩, ?_⟩
                  simp only [newRow] at hinsert
                  rw [hinsert]
                  rfl

/-- The store with what a share captured anew. -/
def resynced (s : ShareStore) (shareId : String) (snapshot : CapturedSnapshot) (nowMs : Nat)
    (expiresIn : Option String) : Option ShareStore :=
  ({ s with
    shares := s.shares.update (fun r => r.id == shareId)
      (fun r => r.synced snapshot nowMs expiresIn) fun _ => rfl }.deleteFiles
        shareId).insertFiles (snapshot.files.map (fileRow shareId))

theorem sync_cases (shareId : String) (expiresIn : Option String) :
    (∃ e, syncShare rt limits services w nowMs shareId expiresIn s = .error e (pruned nowMs s)) ∨
      ∃ existing snapshot s', (pruned nowMs s).shares.get shareId = some existing ∧
        capture rt limits services w existing.kind existing.target_path = .ok snapshot ∧
        resynced (pruned nowMs s) shareId snapshot nowMs expiresIn = some s' ∧
        syncShare rt limits services w nowMs shareId expiresIn s =
          .ok (toShareSummary rt limits services w
            (existing.synced snapshot nowMs expiresIn)) s' := by
  unfold syncShare
  rw [prune_bind]
  dsimp only
  rw [get_bind]
  cases hget : (pruned nowMs s).shares.get shareId with
  | none => exact .inl ⟨_, rfl⟩
  | some existing =>
      dsimp only
      by_cases hpreset : expiresIn.any (validPreset · = false)
      · rw [if_pos hpreset]
        exact .inl ⟨_, rfl⟩
      rw [if_neg hpreset]
      cases hcapture : capture rt limits services w existing.kind existing.target_path with
      | error e => exact .inl ⟨_, rfl⟩
      | ok snapshot =>
          dsimp only
          cases hinsert : resynced (pruned nowMs s) shareId snapshot nowMs expiresIn with
          | none =>
              rw [resynced] at hinsert
              rw [hinsert]
              exact .inl ⟨constraintFailed, rfl⟩
          | some s' =>
              refine .inr ⟨existing, snapshot, s', rfl, hcapture, hinsert, ?_⟩
              rw [resynced] at hinsert
              rw [hinsert]
              rfl

/-- A capture that succeeds is stored. -/
theorem sync_runs {shareId : String} {existing : ShareRow} {snapshot : CapturedSnapshot}
    {s' : ShareStore} (hget : (pruned nowMs s).shares.get shareId = some existing)
    (hcapture : capture rt limits services w existing.kind existing.target_path = .ok snapshot)
    (hresynced : resynced (pruned nowMs s) shareId snapshot nowMs none = some s') :
    syncShare rt limits services w nowMs shareId none s =
      .ok (toShareSummary rt limits services w (existing.synced snapshot nowMs none)) s' := by
  unfold syncShare
  rw [prune_bind]
  dsimp only
  rw [get_bind, hget]
  dsimp only
  rw [if_neg (by simp), hcapture]
  dsimp only
  rw [resynced] at hresynced
  rw [hresynced]
  rfl

/-- A share with a new expiry date. -/
def renewed (preset : String) (nowMs : Nat) (row : ShareRow) : ShareRow :=
  { row with
    expires_at := computeExpiration preset nowMs
    expiration_preset := preset
    updated_at := nowMs }

theorem update_cases (shareId : String) {action : Option String} (h : action ≠ some "sync")
    (expiresIn : Option String) :
    (∃ e, updateShare rt limits services w nowMs shareId action expiresIn s =
        .error e (pruned nowMs s)) ∨
      ∃ existing preset, (pruned nowMs s).shares.get shareId = some existing ∧
        updateShare rt limits services w nowMs shareId action expiresIn s =
          .ok (toShareSummary rt limits services w (renewed preset nowMs existing))
            { pruned nowMs s with
              shares := (pruned nowMs s).shares.update (fun r => r.id == shareId)
                (renewed preset nowMs) fun _ => rfl } := by
  unfold updateShare
  rw [prune_bind]
  dsimp only
  rw [if_neg h, get_bind]
  cases hget : (pruned nowMs s).shares.get shareId with
  | none => exact .inl ⟨_, rfl⟩
  | some existing =>
      dsimp only
      cases hpreset : expiresIn.filter validPreset with
      | none => exact .inl ⟨_, rfl⟩
      | some preset => exact .inr ⟨existing, preset, rfl, rfl⟩

theorem delete_cases (shareId : String) :
    (∃ e, deleteShare nowMs shareId s = .error e (pruned nowMs s)) ∨
      deleteShare nowMs shareId s = .ok () ((pruned nowMs s).deleteShare shareId) := by
  unfold deleteShare
  rw [prune_bind, get_bind]
  cases (pruned nowMs s).shares.get shareId with
  | none => exact .inl ⟨_, rfl⟩
  | some existing => exact .inr rfl

end Operations

/-! ## Public lookups -/

section Lookups

variable {lookups : LookupLimits} {clientKey : String} {nowMs : Nat} {s : ShareStore}

/-- Two stores with the same rows. -/
def SameRows (s s' : ShareStore) : Prop := s'.shares = s.shares ∧ s'.files = s.files

theorem notRateLimited_cases :
    (∃ e, assertNotRateLimited lookups clientKey nowMs s = .error e s) ∨
      ∃ s', assertNotRateLimited lookups clientKey nowMs s = .ok () s' ∧ SameRows s s' := by
  unfold assertNotRateLimited
  rw [get_bind]
  cases hstate : s.failedLookups.lookup clientKey with
  | none => exact .inr ⟨s, rfl, rfl, rfl⟩
  | some state =>
      dsimp only
      split_ifs
      · exact .inr ⟨_, rfl, rfl, rfl⟩
      · exact .inl ⟨_, rfl⟩
      · exact .inr ⟨s, rfl, rfl, rfl⟩

theorem pruned_congr {s' : ShareStore} (h : SameRows s s') :
    SameRows (pruned nowMs s) (pruned nowMs s') := by
  have hfold : ∀ (rows : List ShareRow) (s s' : ShareStore), SameRows s s' →
      SameRows (rows.foldl (fun s row => s.deleteShare row.id) s)
        (rows.foldl (fun s row => s.deleteShare row.id) s') := by
    intro rows
    induction rows with
    | nil => exact fun _ _ h => h
    | cons row rows ih =>
        intro s s' h
        refine ih _ _ ⟨?_, ?_⟩
        · simp [ShareStore.deleteShare, h.1]
        · simp [ShareStore.deleteShare, ShareStore.deleteFiles, h.2]
  rw [pruned, pruned, h.1]
  exact hfold _ s s' h

theorem run_bind {α β : Type} (action : ShareAction α) (k : α → ShareAction β) (s : ShareStore) :
    (action >>= k) s =
      match action s with
      | .ok a s' => k a s'
      | .error e s' => .error e s' := by
  cases h : action s <;> simp [bind, EStateM.bind, h]

/-- What a lookup leaves, and the row it finds. -/
theorem lookup_cases (shareId : String) :
    (∃ e s', lookupActivePublicShareRow lookups shareId clientKey nowMs s = .error e s' ∧
        (s' = s ∨ SameRows (pruned nowMs s) s')) ∨
      ∃ row s', lookupActivePublicShareRow lookups shareId clientKey nowMs s = .ok row s' ∧
        SameRows (pruned nowMs s) s' ∧ (pruned nowMs s).shares.get (trim shareId) = some row := by
  unfold lookupActivePublicShareRow
  rw [run_bind]
  rcases @notRateLimited_cases lookups clientKey nowMs s with ⟨e, he⟩ | ⟨s₁, hs₁, hsame⟩
  · rw [he]
    exact .inl ⟨e, s, rfl, .inl rfl⟩
  · rw [hs₁]
    dsimp only
    rw [prune_bind, get_bind]
    have hpruned := @pruned_congr nowMs s s₁ hsame
    cases hget : (pruned nowMs s₁).shares.get (trim shareId) with
    | none => exact .inl ⟨_, _, rfl, .inr hpruned⟩
    | some row =>
        dsimp only
        split_ifs
        · exact .inl ⟨_, _, rfl, .inr hpruned⟩
        · refine .inr ⟨row, _, rfl, hpruned, ?_⟩
          rw [← hpruned.1]
          exact hget

/-- What a download leaves, and the file that it serves. -/
theorem download_cases (shareId : String) (requestedPath : Option String) :
    (∃ e s', getPublicShareBinaryFile lookups shareId requestedPath clientKey nowMs s =
        .error e s' ∧ (s' = s ∨ SameRows (pruned nowMs s) s')) ∨
      ∃ row f s', lookupActivePublicShareRow lookups shareId clientKey nowMs s = .ok row s' ∧
        SameRows (pruned nowMs s) s' ∧ requestedFile s' row requestedPath = some f ∧
        getPublicShareBinaryFile lookups shareId requestedPath clientKey nowMs s =
          .ok f.served s' := by
  unfold getPublicShareBinaryFile
  rw [run_bind]
  rcases @lookup_cases lookups clientKey nowMs s shareId with
    ⟨e, s', he, hs'⟩ | ⟨row, s', hok, hsame, -⟩
  · rw [he]
    exact .inl ⟨e, s', rfl, hs'⟩
  · rw [hok]
    dsimp only
    rw [get_bind]
    cases hfile : requestedFile s' row requestedPath with
    | none => exact .inl ⟨_, s', rfl, .inr hsame⟩
    | some f => exact .inr ⟨row, f, s', rfl, hsame, hfile, rfl⟩

end Lookups

/-! ## Runs of the service -/

/-- A request to the service, in the world and at the time it is served. -/
inductive ShareOp where
  | create (w : World) (nowMs : Nat) (id : String) (request : ShareCreateRequest)
  | update (w : World) (nowMs : Nat) (shareId : String) (action expiresIn : Option String)
  | delete (nowMs : Nat) (shareId : String)
  | list (w : World) (nowMs : Nat) (kind targetPath : Option String)
  | download (nowMs : Nat) (shareId : String) (requestedPath : Option String) (clientKey : String)

/-- The store after an action, whether it failed or not. -/
def after {α : Type} (action : ShareAction α) (s : ShareStore) : ShareStore :=
  match action s with
  | .ok _ s' => s'
  | .error _ s' => s'

section Serving

variable (rt : Runtime) (limits : Limits) (services : Services) (lookups : LookupLimits)

def ShareOp.serve (s : ShareStore) : ShareOp → ShareStore
  | .create w nowMs id request => after (createShare rt limits services w nowMs id request) s
  | .update w nowMs shareId action expiresIn =>
      after (updateShare rt limits services w nowMs shareId action expiresIn) s
  | .delete nowMs shareId => after (deleteShare nowMs shareId) s
  | .list w nowMs kind targetPath => after (listShares rt limits services w nowMs kind targetPath) s
  | .download nowMs shareId requestedPath clientKey =>
      after (getPublicShareBinaryFile lookups shareId requestedPath clientKey nowMs) s

/-- One request and the store that it leaves. -/
def Serves (s : ShareStore) (op : ShareOp) (s' : ShareStore) : Prop :=
  s' = op.serve rt limits services lookups s

/-- A request that makes the share, captures it again or deletes it. -/
def ShareOp.Touches (id : String) : ShareOp → Prop
  | .create _ _ other _ => other = id
  | .update _ _ shareId action _ => shareId = id ∧ action = some "sync"
  | .delete _ shareId => shareId = id
  | .list _ _ _ _ => False
  | .download _ _ _ _ => False

/-- The share is gone, or it has the revision and the files that it captured. -/
def Kept (row : ShareRow) (files : List ShareFileRow) (s : ShareStore) : Prop :=
  s.shares.get row.id = none ∨ ∃ row', s.shares.get row.id = some row' ∧ row'.kind = row.kind ∧
    row'.target_path = row.target_path ∧ row'.snapshot_revision = row.snapshot_revision ∧
    s.filesOf row.id = files

end Serving

section Frame

variable {rt : Runtime} {limits : Limits} {services : Services} {lookups : LookupLimits}
  {row : ShareRow} {files : List ShareFileRow} {s s' : ShareStore} {nowMs : Nat}

theorem Kept.congr (h : Kept row files s) (hget : s'.shares.get row.id = s.shares.get row.id)
    (hfiles : s'.filesOf row.id = s.filesOf row.id) : Kept row files s' := by
  rw [Kept, hget, hfiles]
  exact h

theorem Kept.same (h : Kept row files s) (hsame : SameRows s s') : Kept row files s' :=
  h.congr (by rw [hsame.1]) (by rw [ShareStore.filesOf, ShareStore.filesOf, hsame.2])

theorem Kept.pruned (h : Kept row files s) : Kept row files (pruned nowMs s) := by
  rcases pruned_cases s nowMs row.id with hnone | ⟨hget, hfiles, -⟩
  · exact .inl hnone
  · exact h.congr hget hfiles

theorem get_insert_other {t t' : ShareTable} {r : ShareRow} {id : String}
    (h : t.insert r = some t') (hne : r.id ≠ id) : t'.get id = t.get id := by
  refine Option.ext fun x => ?_
  rw [Table.get_eq_some_iff, Table.get_eq_some_iff, Table.mem_insert h]
  constructor
  · rintro ⟨hx | rfl, hid⟩
    · exact ⟨hx, hid⟩
    · exact absurd hid hne
  · exact fun ⟨hx, hid⟩ => ⟨.inl hx, hid⟩

theorem Inserted.other {id : String} {r : ShareRow} {snapshot : CapturedSnapshot}
    (h : Inserted id r snapshot s s') (hr : r.id = id) (hne : id ≠ row.id) :
    s'.shares.get row.id = s.shares.get row.id ∧ s'.filesOf row.id = s.filesOf row.id := by
  obtain ⟨shares, hshares, hfiles⟩ := h
  constructor
  · rw [(ShareStore.insertFiles_some hfiles).1]
    exact get_insert_other hshares (hr ▸ hne)
  · rw [ShareStore.filesOf_insert_other hfiles ?_ hne]
    · rfl
    · intro f hf
      obtain ⟨file, -, rfl⟩ := List.mem_map.mp hf
      rfl

theorem get_update_other {t : ShareTable} {f : ShareRow → ShareRow} (hf : ∀ r, (f r).id = r.id)
    {id other : String} (hne : other ≠ id) :
    (t.update (fun r => r.id == other) f hf).get id = t.get id := by
  rw [Table.get_update]
  cases hget : t.get id with
  | none => rfl
  | some r =>
      have hid : r.id = id := Table.key_of_get hget
      simp [hid, hne.symm]

theorem get_update_self {t : ShareTable} {f : ShareRow → ShareRow} (hf : ∀ r, (f r).id = r.id)
    {id : String} {r : ShareRow} (h : t.get id = some r) :
    (t.update (fun r => r.id == id) f hf).get id = some (f r) := by
  rw [Table.get_update, h]
  have hid : r.id = id := Table.key_of_get h
  simp [hid]

theorem resynced_other {shareId : String} {snapshot : CapturedSnapshot} {expiresIn : Option String}
    (h : resynced s shareId snapshot nowMs expiresIn = some s') (hne : shareId ≠ row.id) :
    s'.shares.get row.id = s.shares.get row.id ∧ s'.filesOf row.id = s.filesOf row.id := by
  constructor
  · rw [(ShareStore.insertFiles_some h).1]
    exact @get_update_other s.shares (fun r => r.synced snapshot nowMs expiresIn) (fun _ => rfl)
      _ _ hne
  · rw [ShareStore.filesOf_insert_other h ?_ hne]
    · exact ShareStore.filesOf_deleteFiles hne
    · intro f hf
      obtain ⟨file, -, rfl⟩ := List.mem_map.mp hf
      rfl

/-- A property of stores that every statement of a request keeps. -/
structure Preserved (rt : Runtime) (limits : Limits) (services : Services) (op : ShareOp)
    (P : ShareStore → Prop) : Prop where
  prune : ∀ nowMs s, P s → P (pruned nowMs s)
  same : ∀ s s', SameRows s s' → P s → P s'
  make : ∀ id w kind target nowMs preset snapshot s s', op.Touches id →
    capture rt limits services w kind target = .ok snapshot →
    Inserted id (newRow id nowMs preset snapshot) snapshot s s' → P s → P s'
  sync : ∀ id existing snapshot nowMs expiresIn s s', op.Touches id →
    s.shares.get id = some existing → resynced s id snapshot nowMs expiresIn = some s' →
    P s → P s'
  renew : ∀ id preset nowMs s, P s →
    P { s with shares := s.shares.update (fun r => r.id == id) (renewed preset nowMs) fun _ => rfl }
  delete : ∀ id s, op.Touches id → P s → P (s.deleteShare id)

theorem Preserved.serve {op : ShareOp} {P : ShareStore → Prop}
    (h : Preserved rt limits services op P) (hs : P s) :
    P (op.serve rt limits services lookups s) := by
  cases op with
  | create w nowMs id request =>
      have hpruned := h.prune nowMs s hs
      rcases @create_cases rt limits services w nowMs id s request with
        ⟨e, he⟩ | ⟨kind, target, _, snapshot, s', -, -, hcapture, hinserted, hok⟩
      · simp only [ShareOp.serve, after, he]
        exact hpruned
      · simp only [ShareOp.serve, after, hok]
        exact h.make id w kind target _ _ snapshot _ s' rfl hcapture hinserted hpruned
  | update w nowMs shareId action expiresIn =>
      have hpruned := h.prune nowMs s hs
      by_cases hsync : action = some "sync"
      · have hrun : updateShare rt limits services w nowMs shareId action expiresIn s =
            syncShare rt limits services w nowMs shareId expiresIn (pruned nowMs s) := by
          unfold updateShare
          rw [prune_bind]
          dsimp only
          rw [if_pos hsync]
        simp only [ShareOp.serve, after, hrun]
        rcases @sync_cases rt limits services w nowMs (pruned nowMs s) shareId expiresIn with
          ⟨e, he⟩ | ⟨existing, snapshot, s', hget, -, hresynced, hok⟩
        · rw [he]
          exact h.prune nowMs _ hpruned
        · rw [hok]
          exact h.sync shareId existing snapshot nowMs expiresIn _ s' ⟨rfl, hsync⟩ hget hresynced
            (h.prune nowMs _ hpruned)
      · rcases @update_cases rt limits services w nowMs s shareId action hsync expiresIn with
          ⟨e, he⟩ | ⟨existing, preset, -, hok⟩
        · simp only [ShareOp.serve, after, he]
          exact hpruned
        · simp only [ShareOp.serve, after, hok]
          exact h.renew shareId preset nowMs _ hpruned
  | delete nowMs shareId =>
      have hpruned := h.prune nowMs s hs
      rcases @delete_cases nowMs s shareId with ⟨e, he⟩ | hok
      · simp only [ShareOp.serve, after, he]
        exact hpruned
      · simp only [ShareOp.serve, after, hok]
        exact h.delete shareId _ rfl hpruned
  | list w nowMs kind targetPath => exact h.prune nowMs s hs
  | download nowMs shareId requestedPath clientKey =>
      have hpruned := h.prune nowMs s hs
      rcases @download_cases lookups clientKey nowMs s shareId requestedPath with
        ⟨e, s', he, hs'⟩ | ⟨_, _, s', -, hsame, -, hok⟩
      · simp only [ShareOp.serve, after, he]
        rcases hs' with rfl | hsame
        · exact hs
        · exact h.same _ s' hsame hpruned
      · simp only [ShareOp.serve, after, hok]
        exact h.same _ s' hsame hpruned

/-- A property that every request keeps holds at the end of every run. -/
theorem Preserved.run {P : ShareStore → Prop} {C : ShareOp → Prop}
    {taken : List (Taken ShareStore ShareOp)}
    (h : ∀ op, C op → Preserved rt limits services op P) (hs : P s)
    (hrun : Run (Serves rt limits services lookups) s taken s') (hC : ∀ x ∈ taken, C x.action) :
    P s' :=
  (hrun.invariant_of (C := fun x => C x.action) hs
    (fun _ _ _ ht hn hop => hn ▸ (h _ hop).serve ht) hC).1

theorem Kept.renew (h : Kept row files s) (shareId preset : String) (nowMs : Nat) :
    Kept row files { s with
      shares :=
        s.shares.update (fun r => r.id == shareId) (renewed preset nowMs) fun _ => rfl } := by
  by_cases hid : shareId = row.id
  · rcases h with hnone | ⟨row', hget, hkind, htarget, hrevision, hfiles⟩
    · refine .inl ((Table.get_update _ _ (renewed preset nowMs) (fun _ => rfl) _).trans ?_)
      rw [hnone]
      rfl
    · rw [hid]
      exact .inr ⟨_, @get_update_self _ (renewed preset nowMs) (fun _ => rfl) _ _ hget, hkind,
        htarget, hrevision, hfiles⟩
  · exact h.congr (@get_update_other _ (renewed preset nowMs) (fun _ => rfl) _ _ hid) rfl

/-- A share is kept by every request that does not touch it. -/
theorem kept_preserved (row : ShareRow) (files : List ShareFileRow) {op : ShareOp}
    (hop : ¬ op.Touches row.id) : Preserved rt limits services op (Kept row files) where
  prune _ _ h := h.pruned
  same _ _ hsame h := h.same hsame
  make id _ _ _ _ _ _ _ _ htouch _ hinserted h := by
    have hne : id ≠ row.id := fun he => hop (he ▸ htouch)
    obtain ⟨hget, hfiles⟩ := hinserted.other rfl hne
    exact h.congr hget hfiles
  sync id _ _ _ _ _ _ htouch _ hresynced h := by
    have hne : id ≠ row.id := fun he => hop (he ▸ htouch)
    obtain ⟨hget, hfiles⟩ := resynced_other hresynced hne
    exact h.congr hget hfiles
  renew id preset nowMs _ h := h.renew id preset nowMs
  delete id _ htouch h := by
    have hne : id ≠ row.id := fun he => hop (he ▸ htouch)
    exact h.congr (ShareStore.get_deleteShare hne) (ShareStore.filesOf_deleteShare hne)

end Frame

/-! ## Files belong to shares -/

/-- Every stored file is one of a share. -/
def Owned (s : ShareStore) : Prop := ∀ f ∈ s.files.rows, ∃ r ∈ s.shares.rows, r.id = f.share_id

section Owned

variable {s s' : ShareStore}

theorem Owned.deleteShare (h : Owned s) (id : String) : Owned (s.deleteShare id) := by
  intro f hf
  obtain ⟨hmem, hne⟩ := Table.mem_delete.mp hf
  obtain ⟨r, hr, hid⟩ := h f hmem
  exact ⟨r, Table.mem_delete.mpr ⟨hr, hid ▸ hne⟩, hid⟩

theorem Owned.pruned (h : Owned s) (nowMs : Nat) : Owned (pruned nowMs s) := by
  have hfold : ∀ (rows : List ShareRow) (s : ShareStore), Owned s →
      Owned (rows.foldl (fun s row => s.deleteShare row.id) s) := by
    intro rows
    induction rows with
    | nil => exact fun _ h => h
    | cons row rows ih => exact fun s h => ih _ (h.deleteShare row.id)
  exact hfold _ s h

theorem Owned.update (h : Owned s) (p : ShareRow → Bool) (f : ShareRow → ShareRow)
    (hf : ∀ r, (f r).id = r.id) : Owned { s with shares := s.shares.update p f hf } := by
  intro file hfile
  obtain ⟨r, hr, hid⟩ := h file hfile
  refine ⟨if p r then f r else r, (@Table.mem_update _ _ _ _ p f hf _).mpr ⟨r, hr, rfl⟩, ?_⟩
  split_ifs
  · rw [hf, hid]
  · exact hid

theorem Owned.insertFiles {id : String} {files : List CapturedShareFile} (h : Owned s)
    (hins : s.insertFiles (files.map (fileRow id)) = some s')
    (hid : ∃ r ∈ s.shares.rows, r.id = id) : Owned s' := by
  obtain ⟨hshares, hfiles⟩ := ShareStore.insertFiles_some hins
  intro f hf
  rw [hfiles] at hf
  rw [hshares]
  rcases List.mem_append.mp hf with hold | hnew
  · exact h f hold
  · obtain ⟨file, -, rfl⟩ := List.mem_map.mp hnew
    exact hid

theorem owned_preserved (rt : Runtime) (limits : Limits) (services : Services) (op : ShareOp) :
    Preserved rt limits services op Owned where
  prune nowMs _ h := h.pruned nowMs
  same _ _ hsame h := by
    intro f hf
    rw [hsame.2] at hf
    rw [hsame.1]
    exact h f hf
  make id _ _ _ nowMs preset snapshot s _ _ _ hinserted h := by
    obtain ⟨shares, hshares, hfiles⟩ := hinserted
    have hmem := fun r => @Table.mem_insert _ _ _ _ _ _ _ r hshares
    refine Owned.insertFiles ?_ hfiles ⟨_, (hmem _).mpr (.inr rfl), rfl⟩
    intro f hf
    obtain ⟨r, hr, hid⟩ := h f hf
    exact ⟨r, (hmem r).mpr (.inl hr), hid⟩
  sync id existing snapshot nowMs expiresIn s _ _ hget hresynced h := by
    have hshares := h.update (fun r => r.id == id) (fun r => r.synced snapshot nowMs expiresIn)
      fun _ => rfl
    refine Owned.insertFiles ?_ hresynced ?_
    · exact fun f hf => hshares f (Table.mem_delete.mp hf).1
    · obtain ⟨hmem, hid⟩ := Table.get_eq_some_iff.mp hget
      refine ⟨existing.synced snapshot nowMs expiresIn, ?_, hid⟩
      exact (@Table.mem_update _ _ _ s.shares (fun r => r.id == id)
        (fun r => r.synced snapshot nowMs expiresIn) (fun _ => rfl) _).mpr
          ⟨existing, hmem, if_pos (beq_iff_eq.mpr hid)⟩
  renew id preset nowMs _ h := h.update (fun r => r.id == id) (renewed preset nowMs) fun _ => rfl
  delete id _ _ h := h.deleteShare id

end Owned

def ShareStore.empty : ShareStore := ⟨Table.empty, Table.empty, []⟩

/-- What the service makes of an empty store has no file without a share. -/
theorem owned_run {rt : Runtime} {limits : Limits} {services : Services} {lookups : LookupLimits}
    {taken : List (Taken ShareStore ShareOp)} {s : ShareStore}
    (h : Run (Serves rt limits services lookups) ShareStore.empty taken s) : Owned s :=
  Preserved.run (C := fun _ => True) (fun op _ => owned_preserved rt limits services op)
    (fun _ hf => absurd hf List.not_mem_nil) h fun _ _ => trivial

/-! ## What a capture stores -/

/-- The store has the share of a snapshot, with its files. -/
structure Stores (id : String) (row : ShareRow) (snapshot : CapturedSnapshot) (s : ShareStore) :
    Prop where
  id_eq : row.id = id
  get : s.shares.get id = some row
  kind : row.kind = snapshot.kind
  target_path : row.target_path = snapshot.targetPath
  revision : row.snapshot_revision = snapshot.snapshotRevision
  files : s.filesOf id = snapshot.files.map (fileRow id)

section Capturing

variable {rt : Runtime} {limits : Limits} {services : Services} {w : World} {nowMs : Nat}
  {id : String} {s s' : ShareStore} {summary : ShareSummary}

theorem Owned.filesOf_nil (h : Owned s) (hnone : s.shares.get id = none) : s.filesOf id = [] := by
  rw [List.eq_nil_iff_forall_not_mem]
  intro f hf
  obtain ⟨hmem, hid⟩ := ShareStore.mem_filesOf.mp hf
  obtain ⟨r, hr, hrid⟩ := h f hmem
  have hget := Table.get_of_mem hr
  rw [hrid, hid, hnone] at hget
  cases hget

theorem create_stores (hs : Owned s) {request : ShareCreateRequest}
    (h : createShare rt limits services w nowMs id request s = .ok summary s') :
    ∃ kind targetPath snapshot, capture rt limits services w kind targetPath = .ok snapshot ∧
      Stores id summary.row snapshot s' := by
  rcases @create_cases rt limits services w nowMs id s request with
    ⟨e, he⟩ | ⟨kind, targetPath, preset, snapshot, s₁, -, -, hcapture, hinserted, hok⟩
  · rw [he] at h
    cases h
  · rw [hok] at h
    obtain ⟨rfl, rfl⟩ := EStateM.Result.ok.inj h
    obtain ⟨shares, hshares, hfiles⟩ := hinserted
    have hrow : (toShareSummary rt limits services w (newRow id nowMs preset snapshot)).row =
        newRow id nowMs preset snapshot := by
      unfold toShareSummary
      split <;> rfl
    have hnone : (pruned nowMs s).shares.get id = none := by
      rw [Option.eq_none_iff_forall_not_mem]
      intro r hr
      obtain ⟨hmem, hid⟩ := Table.get_eq_some_iff.mp hr
      exact Table.insert_isSome.mp ⟨shares, hshares⟩ r hmem hid
    refine ⟨kind, targetPath, snapshot, hcapture, ⟨?_, ?_, ?_, ?_, ?_, ?_⟩⟩
    · rw [hrow]
      rfl
    · rw [hrow, (ShareStore.insertFiles_some hfiles).1]
      exact Table.get_eq_some_iff.mpr ⟨(Table.mem_insert hshares).mpr (.inr rfl), rfl⟩
    · rw [hrow]
      rfl
    · rw [hrow]
      rfl
    · rw [hrow]
      rfl
    · refine ShareStore.filesOf_insert_self hfiles ?_ ((hs.pruned nowMs).filesOf_nil hnone)
      intro f hf
      obtain ⟨file, -, rfl⟩ := List.mem_map.mp hf
      rfl

theorem sync_stores {expiresIn : Option String}
    (h : syncShare rt limits services w nowMs id expiresIn s = .ok summary s') :
    ∃ existing snapshot, (pruned nowMs s).shares.get id = some existing ∧
      capture rt limits services w existing.kind existing.target_path = .ok snapshot ∧
      summary.row = existing.synced snapshot nowMs expiresIn ∧
      s'.shares.get id = some summary.row ∧ s'.filesOf id = snapshot.files.map (fileRow id) := by
  rcases @sync_cases rt limits services w nowMs s id expiresIn with
    ⟨e, he⟩ | ⟨existing, snapshot, s₁, hget, hcapture, hresynced, hok⟩
  · rw [he] at h
    cases h
  · rw [hok] at h
    obtain ⟨rfl, rfl⟩ := EStateM.Result.ok.inj h
    have hrow : (toShareSummary rt limits services w
        (existing.synced snapshot nowMs expiresIn)).row =
          existing.synced snapshot nowMs expiresIn := by
      unfold toShareSummary
      split <;> rfl
    refine ⟨existing, snapshot, hget, hcapture, hrow, ?_, ?_⟩
    · rw [hrow, (ShareStore.insertFiles_some hresynced).1]
      exact @get_update_self _ (fun r => r.synced snapshot nowMs expiresIn) (fun _ => rfl) _ _ hget
    · refine ShareStore.filesOf_insert_self hresynced ?_ ShareStore.filesOf_deleteFiles_self
      intro f hf
      obtain ⟨file, -, rfl⟩ := List.mem_map.mp hf
      rfl

end Capturing

end Openlia.Shares
